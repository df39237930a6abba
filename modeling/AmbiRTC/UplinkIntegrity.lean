/-
AmbiRTC/UplinkIntegrity.lean

The uplink from end to end: the sending side of the browser, a network that may
lose packets, repeat them and deliver them in any order, and the input side of
the session (mcu/internal/session/session.go `handlePacket`, pipeline.go
`pushInbound`, `decodeLoop`).  The callback of the data channel pushes into
`inbound` while `decodeLoop` receives and the mix clock reads; each of their steps
may come between any two of the others.

Main result: whatever the interleaving and whatever the network does, each decoder
of the session is given only payloads that the browser's encoder of its own channel
gave, in strictly increasing order of timestamps, and nothing the browser sends
makes the session panic (`uplink_intact`).
-/
import AmbiRTC.UplinkPackets
import AmbiRTC.Decode
import AmbiRTC.QueueAccounting

namespace AmbiRTC.Ingress

open Client DropOldest GoSlice Runs

variable {D : Type}

/-! ### The input side of a session -/

/-- The goroutines of the input side, and what they share. -/
structure State (D : Type) where
  recDeadline : ℤ
  /-- what the callback of the data channel has still to push -/
  pushing : List InboundPkt
  /-- how far it is with the first of them -/
  stage : Stage
  inbound : List InboundPkt
  inboundDrops : UInt64
  /-- what `decodeLoop` has received and not decoded yet -/
  taken : Option InboundPkt
  decode : DecodeState D
  /-- the packets each decoder has been given -/
  given : ℕ → List InboundPkt

/-- A new session. -/
def start (decoder : D) (jb : JitterBuffer) : State D where
  recDeadline := 0
  pushing := []
  stage := .attempt
  inbound := []
  inboundDrops := 0
  taken := none
  decode := newDecodeState decoder jb
  given := fun _ => []

/-- What happens at the input side. -/
inductive Action where
  /-- the callback is called at the time `now` -/
  | message (now : ℤ) (data : Slice UInt8)
  /-- and takes the next step of `pushInbound` -/
  | push
  /-- `decodeLoop` receives a packet -/
  | receive
  /-- and goes on with it -/
  | decode
  /-- the mix clock reads a frame -/
  | read (out : List (List Int16))

/-- The message of an action. -/
def Action.arrival : Action → Option (Slice UInt8)
  | .message _ data => some data
  | _ => none

/-- The messages that come in, in order. -/
def arrivals (as : List Action) : List (Slice UInt8) := as.filterMap Action.arrival

/-- One step of `pushInbound`, on the first packet to push. -/
def State.push (s : State D) (p : InboundPkt) (rest : List InboundPkt) : State D :=
  let r := DropOldest.push Queues.inboundCap s.inbound p s.stage
  { s with
    inbound := r.queue
    inboundDrops := if r.dropped.isSome then s.inboundDrops + 1 else s.inboundDrops
    pushing := if r.next.isSome then p :: rest else rest
    stage := r.next.getD .attempt }

variable (decode : D → List UInt8 → D × Option (List Int16))

/-- One step of the input side; a callback is called when the last one has returned. -/
def step (s : State D) : Action → Option (State D)
  | .message now data =>
    match s.pushing with
    | [] => (handlePacket now ⟨s.recDeadline, []⟩ data).map fun u =>
        { s with recDeadline := u.recDeadline, pushing := u.handed, stage := .attempt }
    | _ :: _ => none
  | .push =>
    match s.pushing with
    | [] => none
    | p :: rest => some (s.push p rest)
  | .receive =>
    match s.taken, s.inbound with
    | none, p :: rest => some { s with taken := some p, inbound := rest }
    | _, _ => none
  | .decode =>
    s.taken.bind fun p => (decodePacket decode s.decode p).map fun d =>
      { s with
        taken := none
        decode := d
        given :=
          if Decode.Gated s.decode p then
            Function.update s.given p.chIdx.toNat (s.given p.chIdx.toNat ++ [p])
          else s.given }
  | .read out => (Decode.step decode s.decode (.read out)).map fun d => { s with decode := d }

/-! ### What holds at the input side -/

/-- The state a decoder is in after some payloads. -/
def feed (decoder : D) (packets : List InboundPkt) : D :=
  packets.foldl (fun d p => (decode d p.payload).1) decoder

/-- What the decoders of a session have been given.  It comes in increasing order of
timestamps, and is what the encoder of the same channel gave; the decoder is in the
state these payloads leave it in; and the session counts as recording only if the
browser was. -/
structure Intact (outs : List Output) (decoder : D) (s : State D) : Prop where
  increasing : ∀ c, (s.given c).Pairwise fun p q => p.frameTs < q.frameTs
  genuine : ∀ c, ∀ p ∈ s.given c, ∃ o ∈ outs, o.chIdx.val = c ∧
    p.frameTs = UInt32.ofNat o.frameTs ∧ p.payload = o.payload
  decoders : ∀ c, s.decode.decoders c = feed decode decoder (s.given c)
  recorded : s.recDeadline = 0 ∨ ∃ o ∈ outs, o.isRec = true

/-- The steps of a session that do not wait for anybody cannot panic. -/
structure Responsive (wire : List (List UInt8)) (s : State D) : Prop where
  handles : s.pushing = [] → ∀ now (data : Slice UInt8), data.data ∈ wire →
    data.data.length < 2 ^ 32 → (step decode s (.message now data)).isSome
  decodes : s.taken.isSome → (step decode s .decode).isSome
  reads : ∀ out, (step decode s (.read out)).isSome

/-- What the decoder of channel `c` has been given, with its gate and its state. -/
structure Fed (outs : List Output) (decoder : D) (c : ℕ) (given : List InboundPkt) (gate : ℤ)
    (d : D) : Prop where
  genuine : ∀ p ∈ given, p.chIdx.toNat = c ∧ FromOutput outs p
  increasing : given.Pairwise fun p q => p.frameTs < q.frameTs
  below : ∀ p ∈ given, (p.frameTs.toNat : ℤ) ≤ gate
  decoder : d = feed decode decoder given

/-- The invariant: packets under way are outputs, and so are those that have arrived. -/
structure Sound (outs : List Output) (decoder : D) (s : State D) : Prop where
  jb : s.decode.jb.Sound
  pushing : ∀ p ∈ s.pushing, FromOutput outs p
  inbound : ∀ p ∈ s.inbound, FromOutput outs p
  taken : ∀ p, s.taken = some p → FromOutput outs p
  fed : ∀ c, Fed decode outs decoder c (s.given c) (s.decode.decInTs c) (s.decode.decoders c)
  recorded : s.recDeadline = 0 ∨ ∃ o ∈ outs, o.isRec = true

variable {decode} {outs : List Output} {decoder : D} {s s' : State D}

theorem Fed.mono {outs' : List Output} {c : ℕ} {given : List InboundPkt} {gate : ℤ} {d : D}
    (h : Fed decode outs decoder c given gate d) (hsub : ∀ o ∈ outs, o ∈ outs') :
    Fed decode outs' decoder c given gate d :=
  { h with genuine := fun p hp => ⟨(h.genuine p hp).1, (h.genuine p hp).2.mono hsub⟩ }

theorem Sound.mono {outs' : List Output} (h : Sound decode outs decoder s)
    (hsub : ∀ o ∈ outs, o ∈ outs') : Sound decode outs' decoder s where
  jb := h.jb
  pushing p hp := (h.pushing p hp).mono hsub
  inbound p hp := (h.inbound p hp).mono hsub
  taken p hp := (h.taken p hp).mono hsub
  fed c := (h.fed c).mono hsub
  recorded := h.recorded.imp_right fun hrec => hrec.imp fun _ ho => ⟨hsub _ ho.1, ho.2⟩

/-- The next payload. -/
theorem Fed.snoc {c : ℕ} {given : List InboundPkt} {gate : ℤ} {d : D}
    (h : Fed decode outs decoder c given gate d) {p : InboundPkt} (hc : p.chIdx.toNat = c)
    (hp : FromOutput outs p) (hgate : gate < p.frameTs.toNat) :
    Fed decode outs decoder c (given ++ [p]) p.frameTs.toNat (decode d p.payload).1 := by
  have hlast : ∀ q ∈ given, q.frameTs.toNat < p.frameTs.toNat := fun q hq => by
    exact_mod_cast (h.below q hq).trans_lt hgate
  refine ⟨fun q hq => ?_, ?_, fun q hq => ?_, ?_⟩
  · rcases List.mem_append.mp hq with hq | hq
    · exact h.genuine q hq
    · rw [List.mem_singleton.mp hq]
      exact ⟨hc, hp⟩
  · refine List.pairwise_append.mpr ⟨h.increasing, List.pairwise_singleton _ _, fun q hq r hr => ?_⟩
    rw [List.mem_singleton.mp hr, UInt32.lt_iff_toNat_lt]
    exact hlast q hq
  · rcases List.mem_append.mp hq with hq | hq
    · exact_mod_cast (hlast q hq).le
    · rw [List.mem_singleton.mp hq]
  · rw [feed, List.foldl_append, h.decoder]
    rfl

theorem sound_start {jb : JitterBuffer} (h : jb.Sound) :
    Sound decode outs decoder (start decoder jb) where
  jb := h
  pushing _ hp := by cases hp
  inbound _ hp := by cases hp
  taken _ hp := by cases hp
  fed _ := ⟨fun _ hp => (by cases hp), .nil, fun _ hp => (by cases hp), rfl⟩
  recorded := Or.inl rfl

theorem Sound.intact (h : Sound decode outs decoder s) : Intact decode outs decoder s where
  increasing c := (h.fed c).increasing
  genuine c p hp := by
    obtain ⟨hidx, o, ho, hchannel, hrest⟩ := (h.fed c).genuine p hp
    exact ⟨o, ho, hchannel.symm.trans hidx, hrest⟩
  decoders c := (h.fed c).decoder
  recorded := h.recorded

/-- A packet of the browser is taken in. -/
theorem Sound.message (h : Sound decode outs decoder s) {now : ℤ} {u : Uplink}
    (hhandled : Handled outs now ⟨s.recDeadline, []⟩ u) :
    Sound decode outs decoder
      { s with recDeadline := u.recDeadline, pushing := u.handed, stage := .attempt } := by
  obtain ⟨handed, hhanded, hfrom⟩ := hhandled.handed
  refine { h with pushing := fun p hp => ?_, recorded := ?_ }
  · have hp : p ∈ u.handed := hp
    rw [hhanded] at hp
    exact hfrom p hp
  · rcases hhandled.deadline with hsame | ⟨-, hrec⟩
    · exact h.recorded.imp hsame.trans id
    · exact Or.inr hrec

theorem Sound.push (h : Sound decode outs decoder s) {p : InboundPkt} {rest : List InboundPkt}
    (hpushing : s.pushing = p :: rest) : Sound decode outs decoder (s.push p rest) := by
  refine { h with pushing := fun q hq => h.pushing q ?_, inbound := fun q hq => ?_ }
  · rw [hpushing]
    simp only [State.push] at hq
    split at hq
    · exact hq
    · exact List.mem_cons_of_mem p hq
  · rcases List.mem_append.mp (queue_push_sublist.subset hq) with hq | hq
    · exact h.inbound q hq
    · rw [List.mem_singleton.mp hq]
      exact h.pushing p (hpushing ▸ List.mem_cons_self)

theorem Sound.receive (h : Sound decode outs decoder s) {p : InboundPkt} {rest : List InboundPkt}
    (hinbound : s.inbound = p :: rest) :
    Sound decode outs decoder { s with taken := some p, inbound := rest } := by
  refine { h with
    inbound := fun q hq => h.inbound q (hinbound ▸ List.mem_cons_of_mem p hq)
    taken := fun q hq => ?_ }
  rw [← Option.some.inj hq]
  exact h.inbound p (hinbound ▸ List.mem_cons_self)

/-- A packet the gate lets through is given to the decoder of its channel. -/
theorem Sound.fed_decoded (h : Sound decode outs decoder s) {p : InboundPkt}
    (hp : s.taken = some p) (hgate : Decode.Gated s.decode p) (c : ℕ) :
    Fed decode outs decoder c
      (Function.update s.given p.chIdx.toNat (s.given p.chIdx.toNat ++ [p]) c)
      ((Decode.decoded decode s.decode p).decInTs c)
      ((Decode.decoded decode s.decode p).decoders c) := by
  by_cases hc : c = p.chIdx.toNat
  · subst hc
    simp only [Decode.decoded, Function.update_self]
    exact (h.fed _).snoc rfl (h.taken p hp) hgate.2
  · simp only [Decode.decoded, Function.update_of_ne hc]
    exact h.fed c

/-- `decodeLoop` goes on without a panic. -/
theorem Sound.decodes (h : Sound decode outs decoder s) {p : InboundPkt} (hp : s.taken = some p) :
    ∃ s', step decode s .decode = some s' ∧ Sound decode outs decoder s' := by
  have hnone : ∀ q, (none : Option InboundPkt) = some q → FromOutput outs q :=
    fun q hq => by cases hq
  obtain ⟨d, hd, hjb, -⟩ := @Decode.decodePacket_spec _ decode _ h.jb p
  refine ⟨_, by rw [step, hp, Option.bind_some, hd, Option.map_some], ?_⟩
  by_cases hgate : Decode.Gated s.decode p
  · simp only [if_pos hgate]
    have hfed := h.fed_decoded hp hgate
    rw [Decode.decodePacket_of_gated hgate] at hd
    split at hd
    · obtain rfl := Option.some.inj hd
      exact { h with jb := hjb, taken := hnone, fed := hfed }
    · obtain ⟨jb, -, rfl⟩ := Option.map_eq_some_iff.mp hd
      exact { h with jb := hjb, taken := hnone, fed := hfed }
  · simp only [if_neg hgate]
    obtain ⟨n, hn⟩ := @Decode.decodePacket_of_not_gated _ decode _ _ hgate
    obtain rfl := Option.some.inj (hn.symm.trans hd)
    exact { h with jb := hjb, taken := hnone, fed := h.fed }

/-- The mix clock reads without a panic. -/
theorem Sound.reads (h : Sound decode outs decoder s) (out : List (List Int16)) :
    ∃ s', step decode s (.read out) = some s' ∧ Sound decode outs decoder s' := by
  obtain ⟨jb, hread, hcall⟩ := @Decode.step_read _ decode _ out h.jb
  refine ⟨{ s with decode := { s.decode with jb := jb } }, ?_, { h with jb := (h.jb.call hcall).1 }⟩
  rw [step, hread, Option.map_some]

/-- **Every step keeps the invariant**, if what comes in was sent by the browser. -/
theorem Sound.step {sender : Sender} (hmade : sender.Made outs) (h : Sound decode outs decoder s)
    {a : Action} (ha : ∀ data, a.arrival = some data →
      data.data ∈ sender.wire ∧ data.data.length < 2 ^ 32)
    (hs : step decode s a = some s') : Sound decode outs decoder s' := by
  cases a with
  | message now data =>
    simp only [Ingress.step] at hs
    split at hs
    · obtain ⟨u, hu, rfl⟩ := Option.map_eq_some_iff.mp hs
      obtain ⟨hwire, hlen⟩ := ha data rfl
      obtain ⟨u', hu', hhandled⟩ := @Sender.handled_of_sent _ now ⟨s.recDeadline, []⟩ data _ hmade _
        hwire hlen rfl
      obtain rfl := Option.some.inj (hu'.symm.trans hu)
      exact h.message hhandled
    · cases hs
  -- from here on packets go through a channel to `decodeLoop`, and lose nothing of what they say
  | push =>
    simp only [Ingress.step] at hs
    split at hs
    · cases hs
    next p rest hpushing =>
      obtain rfl := Option.some.inj hs
      exact h.push hpushing
  | receive =>
    simp only [Ingress.step] at hs
    split at hs
    next p rest htaken hinbound =>
      obtain rfl := Option.some.inj hs
      exact h.receive hinbound
    next => cases hs
  | decode =>
    obtain ⟨p, hp, -⟩ := Option.bind_eq_some_iff.mp hs
    obtain ⟨t, ht, hsound⟩ := h.decodes hp
    obtain rfl := Option.some.inj (ht.symm.trans hs)
    exact hsound
  | read out =>
    obtain ⟨t, ht, hsound⟩ := h.reads out
    obtain rfl := Option.some.inj (ht.symm.trans hs)
    exact hsound

theorem Sound.responsive {sender : Sender} (hmade : sender.Made outs)
    (h : Sound decode outs decoder s) : Responsive decode sender.wire s where
  handles hidle now data hwire hlen := by
    obtain ⟨u, hu, -⟩ := @Sender.handled_of_sent _ now ⟨s.recDeadline, []⟩ data _ hmade _
      hwire hlen rfl
    rw [Ingress.step, hidle]
    simp only [hu, Option.map_some, Option.isSome_some]
  decodes htaken := by
    obtain ⟨p, hp⟩ := Option.isSome_iff_exists.mp htaken
    obtain ⟨t, ht, -⟩ := h.decodes hp
    rw [ht]
    rfl
  reads out := by
    obtain ⟨t, ht, -⟩ := h.reads out
    rw [ht]
    rfl

/-- **The uplink end to end.**  Let the browser send in any way, and let the network
deliver any of its packets, as often as it likes and in any order: what the
session's decoders are given is intact, and the session goes on. -/
theorem uplink_intact {frameSize : ℕ} (hfs : frameSize ∈ validFrameSizes) {jb : JitterBuffer}
    (hjb : sessionJitterBuffer frameSize = .ok jb) (decoder : D) {as : List Sender.Action}
    {sender : Sender} (hsender : Run Sender.step Sender.start as sender) {es : List Action}
    (hs : Run (step decode) (start decoder jb) es s)
    (hsent : ∀ data ∈ arrivals es, data.data ∈ sender.wire)
    (hlen : ∀ data ∈ arrivals es, data.data.length < 2 ^ 32) :
    Intact decode (outputs as) decoder s ∧ Responsive decode sender.wire s := by
  have hmade := Sender.made_of_run hsender
  obtain ⟨jb', hjb', hsound, -⟩ := sessionJitterBuffer_sound hfs
  obtain rfl := Except.ok.inj (hjb'.symm.trans hjb)
  have hinv : Sound decode (outputs as) decoder s := by
    refine hs.invariant_of_along (I := Sound decode (outputs as) decoder)
      (P := fun _ e => ∀ data, e.arrival = some data →
        data.data ∈ sender.wire ∧ data.data.length < 2 ^ 32) ?_ ?_ (sound_start hsound)
    · exact fun s₁ e s₂ hsound harrival hstep => hsound.step hmade harrival hstep
    · intro es₁ e es₂ s₁ hes hrun data hdata
      have hin : data ∈ arrivals es := by
        rw [hes]
        exact List.mem_filterMap.mpr ⟨e, List.mem_append_right _ List.mem_cons_self, hdata⟩
      exact ⟨hsent data hin, hlen data hin⟩
  exact ⟨hinv.intact, hinv.responsive hmade⟩

/-- A legacy packet, and then an offer that turns bundling on. -/
def changingFormat : List Sender.Action :=
  [.channel true, .output ⟨Fin.last 15, 960, [7], false⟩ false, .offer true 480,
    .output ⟨Fin.last 15, 1440, [8], false⟩ false, .output ⟨Fin.last 15, 1920, [9], false⟩ false]

/-- A message of at most an Ethernet frame, as the callback gets it. -/
def received (buf : List UInt8) : Slice UInt8 where
  data := buf.take 1500
  spare := []
  cap_lt := (Nat.add_le_add_right (List.length_take_le 1500 buf) 0).trans_lt (by decide)

/-- The packets of the browser come in one after the other, the legacy one last. -/
def deliveries (sender : Sender) : List Action :=
  sender.wire.flatMap fun buf => [.message 0 (received buf), .push, .receive, .decode]

/-- A decoder that keeps what it is given and makes nothing of it. -/
def recorder (d : List (List UInt8)) (payload : List UInt8) :
    List (List UInt8) × Option (List Int16) :=
  (d ++ [payload], none)

/-- The bundle comes first and is decoded; the legacy packet is then too late. -/
theorem uplink_intact_changingFormat : ∃ jb sender s,
    Run Sender.step Sender.start changingFormat sender ∧
      Run (step recorder) (start [] jb) (deliveries sender) s ∧
      s.given 15 = [⟨15, 1440, [8]⟩] ∧ s.decode.reorderDrops = 1 ∧
      Intact recorder (outputs changingFormat) [] s ∧ Responsive recorder sender.wire s := by
  obtain ⟨jb, hjb, hsession⟩ := (Option.any_eq_true _ _).mp
    (by decide +kernel : (sessionJitterBuffer 480).toOption.any (fun jb =>
      (exec Sender.step Sender.start changingFormat).any fun sender =>
        (exec (step recorder) (start [] jb) (deliveries sender)).any fun s =>
          decide (s.given 15 = [⟨15, 1440, [8]⟩] ∧ s.decode.reorderDrops = 1 ∧
            (∀ data ∈ arrivals (deliveries sender), data.data ∈ sender.wire) ∧
              ∀ data ∈ arrivals (deliveries sender), data.data.length < 2 ^ 32)) = true)
  obtain ⟨sender, hsender, hsession⟩ := (Option.any_eq_true _ _).mp hsession
  obtain ⟨s, hs, hchecks⟩ := (Option.any_eq_true _ _).mp hsession
  obtain ⟨hgiven, hdrops, hsent, hlen⟩ := of_decide_eq_true hchecks
  have hfresh : sessionJitterBuffer 480 = .ok jb := by
    cases hnew : sessionJitterBuffer 480 <;> rw [hnew] at hjb <;> cases hjb
    rfl
  exact ⟨jb, sender, s, .of_exec hsender, .of_exec hs, hgiven, hdrops,
    uplink_intact (by decide) hfresh [] (.of_exec hsender) (.of_exec hs) hsent hlen⟩

end AmbiRTC.Ingress
