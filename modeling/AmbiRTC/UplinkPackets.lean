/-
AmbiRTC/UplinkPackets.lean

The sending side of the browser client (client/engine.js `_onEncoderOutput`,
`_accumulateBundle`, `_flushBundle`).  Each encoder output goes out as a legacy
packet of its own, or, once an offer has turned bundling on, into the accumulator.
The data channel may open and close and be congested at any time, and what comes
then is dropped, or is flushed into nothing.

Main results: every packet ever handed to the data channel is made of encoder
outputs (`Sender.made_of_run`), and what the server's `handlePacket` reads off it
are these outputs (`Sender.handled_of_sent`).
-/
import AmbiRTC.TxConservation
import AmbiRTC.Demux

namespace AmbiRTC.Client

open GoSlice Runs Words

/-! ### The client -/

/-- A legacy packet: the output it was made of, and its number. -/
structure Single where
  output : Output
  seqNum : UInt32
  deriving DecidableEq

/-- What the legacy path of `_onEncoderOutput` hands to `send`. -/
def Single.bytes (p : Single) : List UInt8 :=
  ((if p.output.isRec then isRecBit else 0) ||| (UInt8.ofNat p.output.chIdx &&& chIdxMask))
    :: (putLeUInt32 p.seqNum ++ putLeUInt32 (UInt32.ofNat p.output.frameTs)) ++ p.output.payload

/-- What encoder outputs are sent from. -/
structure Sender where
  /-- `this._packing === 'bundled'` -/
  bundled : Bool
  /-- the frame size `_txLayout` was planned for -/
  layoutSize : ℕ
  seqNums : ℕ → UInt32
  tx : Tx
  /-- the legacy packets that have been sent -/
  singles : List Single

/-- What happens to the sending side. -/
inductive Sender.Action where
  /-- an encoder gives a chunk; `congested` is
  `this._dc.bufferedAmount > this._maxTxBufferBytes` -/
  | output (o : Output) (congested : Bool)
  /-- an offer comes: `packing` is `this._bundle && msg.packing === 'bundled'` -/
  | offer (packing : Bool) (frameSize : ℕ)
  /-- the data channel opens or closes -/
  | channel (isOpen : Bool)
  /-- `_buildEncoders` -/
  | build

namespace Sender

/-- A client without a data channel. -/
def start : Sender where
  bundled := false
  layoutSize := 0
  seqNums := fun _ => 0
  tx := { Tx.start with dcOpen := false }
  singles := []

/-- `_onEncoderOutput`; `none` is an exception. -/
def onEncoderOutput (s : Sender) (o : Output) (congested : Bool) : Option Sender :=
  if !s.tx.dcOpen then some s
  else if congested then some s
  else if s.bundled then (s.tx.accumulateBundle s.layoutSize o).map fun tx => { s with tx }
  else
    some { s with
      seqNums := Function.update s.seqNums o.chIdx (s.seqNums o.chIdx + 1)
      tx := { s.tx with totalPktsSent := s.tx.totalPktsSent + 1 }
      singles := s.singles ++ [⟨o, s.seqNums o.chIdx⟩] }

/-- One step of the sending side. -/
def step (s : Sender) : Action → Option Sender
  | .output o congested => s.onEncoderOutput o congested
  | .offer packing frameSize =>
    some (if packing then { s with bundled := true, layoutSize := frameSize } else s)
  | .channel isOpen => some { s with tx := { s.tx with dcOpen := isOpen } }
  | .build => some { s with seqNums := fun _ => 0 }

/-- The buffers the data channel has been given. -/
def wire (s : Sender) : List (List UInt8) :=
  s.tx.sent.map Packet.bytes ++ s.singles.map Single.bytes

end Sender

/-- The output of an action. -/
def Sender.Action.toOutput : Sender.Action → Option Output
  | .output o _ => some o
  | _ => none

/-- The encoder outputs of a run, in order. -/
def outputs (as : List Sender.Action) : List Output := as.filterMap Sender.Action.toOutput

theorem outputs_snoc (as : List Sender.Action) (a : Sender.Action) :
    outputs (as ++ [a]) = outputs as ++ a.toOutput.toList := by
  rw [outputs, List.filterMap_append]
  cases h : a.toOutput <;> simp [outputs, h]

/-! ### What packets are made of -/

/-- A packet of a bundle is made of outputs of its frame, some channels of it, and
flagged only if the latch was on. -/
structure Packet.MadeOf (outs : List Output) (p : Packet) : Prop where
  wellFormed : ∃ chans, ValidChans chans ∧ p.chans = chans.map Chan.of
  chans : ∀ ch ∈ p.chans, ∃ o ∈ outs, o.frameTs = p.frameTs ∧ ch = ⟨o.chIdx.val, o.payload⟩
  recorded : p.isRec = true → ∃ o ∈ outs, o.isRec = true

theorem Packet.MadeOf.mono {outs outs' : List Output} {p : Packet} (h : p.MadeOf outs)
    (hsub : ∀ o ∈ outs, o ∈ outs') : p.MadeOf outs' where
  wellFormed := h.wellFormed
  chans ch hch := (h.chans ch hch).imp fun _ ho => ⟨hsub _ ho.1, ho.2⟩
  recorded hrec := (h.recorded hrec).imp fun _ ho => ⟨hsub _ ho.1, ho.2⟩

/-- What is in the accumulator and in the packets of the bundled path came from
the encoders. -/
structure Tx.Made (outs : List Output) (s : Tx) : Prop where
  paired : s.txBundleTs = none ↔ s.txBundleAccum = none
  held : ∀ ts accum, s.txBundleTs = some ts → s.txBundleAccum = some accum →
    ∀ (c : Fin 16) payload, accum c = some payload →
      ∃ o ∈ outs, o.chIdx = c ∧ o.frameTs = ts ∧ o.payload = payload
  sent : ∀ p ∈ s.sent, p.MadeOf outs

namespace Tx

variable {s s' : Tx} {outs : List Output} {frameSize ts : ℕ}
  {accum : ℕ → Option (List UInt8)} {isRec : Bool} {o : Output}

theorem Made.mono {outs' : List Output} (h : s.Made outs) (hsub : ∀ o ∈ outs, o ∈ outs') :
    s.Made outs' where
  paired := h.paired
  held ts accum hts haccum c payload hput :=
    (h.held ts accum hts haccum c payload hput).imp fun _ ho => ⟨hsub _ ho.1, ho.2⟩
  sent p hp := (h.sent p hp).mono hsub

/-- All packets of a flush have the flag it was called with. -/
theorem isRec_of_sendGroups {groups : List (List ℕ)} {p : Packet}
    (hp : p ∈ (groups.foldl (sendGroup ts accum isRec) s).sent) :
    p ∈ s.sent ∨ p.isRec = isRec := by
  induction groups generalizing s with
  | nil => exact Or.inl hp
  | cons group groups ih =>
    rcases ih hp with hin | hrec
    · unfold sendGroup at hin
      simp only at hin
      split at hin
      · exact Or.inl hin
      · split at hin
        · exact Or.inl hin
        · refine (List.mem_append.mp hin).imp_right fun hnew => ?_
          rw [List.mem_singleton.mp hnew]
    · exact Or.inr hrec

/-- A flush sends packets of what was held, all flagged alike. -/
theorem mem_sent_flushBundle {p : Packet} (hp : p ∈ (s.flushBundle frameSize isRec).sent) :
    p ∈ s.sent ∨ p.isRec = isRec ∧ ∃ ts accum, s.txBundleTs = some ts ∧
      s.txBundleAccum = some accum ∧ p.frameTs = ts ∧ ∃ group ∈ planLayout frameSize,
        p.chans = groupChans accum group ∧ groupChans accum group ≠ [] := by
  have hflush := hp
  unfold flushBundle at hp
  split at hp
  next ts accum hts haccum =>
    split at hp
    next hclosed => exact Or.inl hp
    next hopen =>
      have hopen : s.dcOpen = true := by simpa using hopen
      obtain ⟨packets, count, hspec, hpackets⟩ :=
        @flushBundle_spec s ts frameSize accum isRec hopen hts haccum
      rw [hspec] at hflush
      rcases List.mem_append.mp hflush with hold | hnew
      · exact Or.inl hold
      · rcases isRec_of_sendGroups hp with hold | hrec
        · exact Or.inl hold
        · obtain ⟨hframe, hgroup⟩ := of_mem_packets hpackets hnew
          exact Or.inr ⟨hrec, ts, accum, hts, haccum, hframe, hgroup⟩
  next => exact Or.inl hp

/-- Nothing is left in the accumulator. -/
theorem flushBundle_cleared : (s.flushBundle frameSize isRec).txBundleTs = none ∧
    (s.flushBundle frameSize isRec).txBundleAccum = none := by
  have hgroups : ∀ (groups : List (List ℕ)) (ts : ℕ) (accum : ℕ → Option (List UInt8)) (t : Tx),
      t.txBundleTs = none ∧ t.txBundleAccum = none →
        (groups.foldl (sendGroup ts accum isRec) t).txBundleTs = none ∧
          (groups.foldl (sendGroup ts accum isRec) t).txBundleAccum = none := by
    intro groups ts accum
    induction groups with
    | nil => exact fun t ht => ht
    | cons group groups ih =>
      refine fun t ht => ih _ ?_
      unfold sendGroup
      simp only
      split
      · exact ht
      · split <;> exact ht
  unfold flushBundle
  split
  · split
    · exact ⟨rfl, rfl⟩
    · exact hgroups _ _ _ _ ⟨rfl, rfl⟩
  · exact ⟨rfl, rfl⟩

/-- **A flush makes packets of outputs only.** -/
theorem Made.flush (h : s.Made outs) (hrec : isRec = true → ∃ o ∈ outs, o.isRec = true) :
    (s.flushBundle frameSize isRec).Made outs := by
  obtain ⟨hts, haccum⟩ := @flushBundle_cleared s frameSize isRec
  refine ⟨iff_of_true hts haccum, fun _ _ hts' => ?_, fun p hp => ?_⟩
  · rw [hts] at hts'
    cases hts'
  rcases mem_sent_flushBundle hp with hold | ⟨hflag, ts, accum, hts, haccum, hframe, group, hgroup,
    hchans, hne⟩
  · exact h.sent p hold
  refine ⟨?_, fun ch hch => ?_, fun hp => hrec (hflag ▸ hp)⟩
  · rw [hchans]
    exact exists_valid_groupChans hgroup hne
  · rw [hchans] at hch
    obtain ⟨c, payload, hpayload, rfl⟩ := of_mem_groupChans hgroup hch
    obtain ⟨o, ho, hidx, hots, rfl⟩ := h.held ts accum hts haccum c payload hpayload
    exact ⟨o, ho, hots.trans hframe.symm, by rw [hidx]⟩

/-- A new frame is empty. -/
theorem Made.openFrame (h : s.Made outs) (frameTs : ℕ) : Made outs { s with
    txBundleTs := some frameTs
    txBundleAccum := some fun _ => none
    txBundleCount := 0 } := by
  refine ⟨iff_of_false (by simp) (by simp), fun _ _ _ haccum c payload hput => ?_, h.sent⟩
  obtain rfl := Option.some.inj haccum
  cases hput

/-- An output is put into the frame it belongs to. -/
theorem Made.put (h : s.Made outs) (hts : s.txBundleTs = some o.frameTs)
    (haccum : s.txBundleAccum = some accum) (count : ℕ) :
    Made (outs ++ [o]) { s with
      txBundleCount := count
      txBundleAccum := some (Function.update accum o.chIdx (some o.payload)) } := by
  have hmono : s.Made (outs ++ [o]) := h.mono fun _ => List.mem_append_left _
  refine ⟨iff_of_false (by simp [hts]) (by simp), fun ts accum' hts' haccum' c payload hput => ?_,
    hmono.sent⟩
  obtain rfl := Option.some.inj haccum'
  by_cases hc : c = o.chIdx
  · subst hc
    rw [Function.update_self] at hput
    exact ⟨o, by simp, rfl, Option.some.inj (hts.symm.trans hts'), Option.some.inj hput⟩
  · rw [Function.update_of_ne fun hval => hc (Fin.val_injective hval)] at hput
    exact hmono.held ts accum hts' haccum c payload hput

/-- **An output is accumulated**, and no exception thrown. -/
theorem Made.accumulate (h : s.Made outs) (o : Output) :
    ∃ s', s.accumulateBundle frameSize o = some s' ∧ s'.Made (outs ++ [o]) := by
  have hrec : o.isRec = true → ∃ o' ∈ outs ++ [o], o'.isRec = true :=
    fun hflag => ⟨o, by simp, hflag⟩
  -- the frame is open: the output is put into it, and the sixteenth flushes it
  have hopened : ∀ {s : Tx} (count : ℕ) {accum : ℕ → Option (List UInt8)},
      s.Made (outs ++ [o]) → s.txBundleTs = some o.frameTs → s.txBundleAccum = some accum →
        Made (outs ++ [o]) (
          let s := { s with
            txBundleCount := count
            txBundleAccum := some (Function.update accum o.chIdx (some o.payload)) }
          if s.txBundleCount = channels then s.flushBundle frameSize o.isRec else s) := by
    intro s count accum h hts haccum
    have hput : Made (outs ++ [o]) { s with
        txBundleCount := count
        txBundleAccum := some (Function.update accum o.chIdx (some o.payload)) } :=
      (h.put hts haccum count).mono fun o' ho' => (List.mem_append.mp ho').elim id (by simp_all)
    show Made _ (if count = channels then _ else _)
    split
    · exact hput.flush hrec
    · exact hput
  have hmono : s.Made (outs ++ [o]) := h.mono fun _ => List.mem_append_left _
  unfold accumulateBundle
  by_cases hsame : s.txBundleTs = some o.frameTs
  · obtain ⟨accum, haccum⟩ : ∃ accum, s.txBundleAccum = some accum := by
      refine Option.ne_none_iff_exists'.mp fun hnone => ?_
      rw [h.paired.mpr hnone] at hsame
      cases hsame
    have hcond : ¬ s.txBundleTs ≠ some o.frameTs := not_not.mpr hsame
    simp only [if_neg hcond, haccum]
    exact ⟨_, rfl, hopened _ hmono hsame haccum⟩
  · simp only [ne_eq, hsame, not_false_eq_true, if_true]
    exact ⟨_, rfl, hopened _ ((hmono.flush hrec).openFrame o.frameTs) rfl rfl⟩

end Tx

/-! ### Runs of the sending side -/

namespace Sender

variable {s s' : Sender} {outs : List Output} {as : List Action}

/-- All that has been sent, or is about to be, came from the encoders. -/
structure Made (outs : List Output) (s : Sender) : Prop where
  tx : s.tx.Made outs
  singles : ∀ p ∈ s.singles, p.output ∈ outs

theorem made_start : Made [] start where
  tx := ⟨iff_of_true rfl rfl, fun _ _ h => (by cases h), fun _ h => (by cases h)⟩
  singles _ h := by cases h

theorem Made.mono {outs' : List Output} (h : s.Made outs) (hsub : ∀ o ∈ outs, o ∈ outs') :
    s.Made outs' :=
  ⟨h.tx.mono hsub, fun p hp => hsub _ (h.singles p hp)⟩

/-- No output makes the client throw, and all packets stay made of outputs. -/
theorem Made.onEncoderOutput (h : s.Made outs) (o : Output) (congested : Bool) :
    ∃ s', s.onEncoderOutput o congested = some s' ∧ s'.Made (outs ++ [o]) := by
  have hmono : s.Made (outs ++ [o]) := h.mono fun _ => List.mem_append_left _
  unfold Sender.onEncoderOutput
  split
  · exact ⟨s, rfl, hmono⟩
  split
  · exact ⟨s, rfl, hmono⟩
  split
  · obtain ⟨tx, htx, hmade⟩ := @Tx.Made.accumulate s.tx outs s.layoutSize h.tx o
    exact ⟨{ s with tx }, by rw [htx]; rfl, hmade, hmono.singles⟩
  · refine ⟨_, rfl, ⟨hmono.tx.paired, hmono.tx.held, hmono.tx.sent⟩, fun p hp => ?_⟩
    rcases List.mem_append.mp hp with hp | hp
    · exact hmono.singles p hp
    · rw [List.mem_singleton.mp hp]
      simp

theorem Made.step {a : Action} (h : s.Made outs) (hs : s.step a = some s') :
    s'.Made (outs ++ a.toOutput.toList) := by
  cases a with
  | output o congested =>
    obtain ⟨t, ht, hmade⟩ := h.onEncoderOutput o congested
    obtain rfl := Option.some.inj (hs.symm.trans ht)
    exact hmade
  | offer packing frameSize =>
    obtain rfl := Option.some.inj hs
    show Made (outs ++ []) _
    rw [List.append_nil]
    split
    · exact ⟨h.tx, h.singles⟩
    · exact h
  | channel isOpen =>
    obtain rfl := Option.some.inj hs
    show Made (outs ++ []) _
    rw [List.append_nil]
    exact ⟨⟨h.tx.paired, h.tx.held, h.tx.sent⟩, h.singles⟩
  | build =>
    obtain rfl := Option.some.inj hs
    show Made (outs ++ []) _
    rw [List.append_nil]
    exact ⟨h.tx, h.singles⟩

/-- **All packets are made of encoder outputs.** -/
theorem made_of_run (h : Run step start as s) : s.Made (outputs as) := by
  have hkeep : ∀ past s a s', s.Made (outputs past) → True → step s a = some s' →
      s'.Made (outputs (past ++ [a])) := by
    intro past s a s' hs _ hstep
    rw [outputs_snoc]
    exact hs.step hstep
  have hmade : Made (outputs []) start := made_start
  exact h.invariant_history hkeep (fun _ _ _ _ _ _ => trivial) hmade

end Sender

/-! ### What the server makes of them -/

/-- The payload bytes of a bundle are all in it. -/
theorem totalBytes_le_of_marshal {frameTs : ℤ} {chans : List Chan} {isRec : Bool}
    {buf : List UInt8} (h : marshalBundle frameTs chans isRec = .ok buf) :
    (chans.map fun c => c.payload.length).sum ≤ buf.length := by
  have hsum : ((sortChans chans).flatMap Chan.payload).length
      = (chans.map fun c => c.payload.length).sum := by
    rw [List.length_flatMap]
    exact ((List.perm_insertionSort _ chans).map _).sum_eq
  rw [marshalBundle] at h
  split at h
  · cases h
  split at h
  · cases h
  simp only at h
  split at h
  · cases h
  · rw [← Except.ok.inj h, List.length_append, hsum]
    exact Nat.le_add_left _ _

/-- A timestamp is written modulo `2^32`. -/
theorem marshalBundle_ofNat (frameTs : ℕ) (chans : List Chan) (isRec : Bool) :
    marshalBundle (UInt32.ofNat frameTs).toNat chans isRec = marshalBundle frameTs chans isRec := by
  have hts : UInt32.ofInt ((UInt32.ofNat frameTs).toNat : ℤ) = UInt32.ofInt frameTs := by
    apply UInt32.toNat_inj.mp
    simp only [UInt32.ofInt, UInt32.toNat_ofNat']
    omega
  unfold marshalBundle
  rw [hts]

/-- The browser's packet is what the server itself would write. -/
theorem Packet.marshalled_eq (p : Packet) {chans : List ChannelPayload} (h : ValidChans chans)
    (hchans : p.chans = chans.map Chan.of) (hlen : p.bytes.length < 2 ^ 32) :
    AmbiRTC.marshalBundle (UInt32.ofNat p.frameTs) chans p.isRec = .ok p.bytes := by
  obtain ⟨buf, hbuf⟩ := AmbiRTC.exists_marshalBundle h (UInt32.ofNat p.frameTs) p.isRec
  have htotal : totalBytes chans < 2 ^ 32 := by
    refine lt_of_le_of_lt ?_ hlen
    have hle := totalBytes_le_of_marshal p.marshalled
    rw [hchans, List.map_map] at hle
    exact hle
  have heq := marshalBundle_eq hbuf htotal
  rw [marshalBundle_ofNat, ← hchans, p.marshalled] at heq
  rw [Except.ok.inj heq]
  exact hbuf

/-- The legacy packet, too. -/
theorem Single.marshalled_eq (p : Single) :
    AmbiRTC.Packet.marshalBinary ⟨p.output.isRec, UInt8.ofNat p.output.chIdx, p.seqNum,
      UInt32.ofNat p.output.frameTs, p.output.payload⟩ = .ok p.bytes := by
  have hle : UInt8.ofNat p.output.chIdx ≤ 15 := by
    have hlt := p.output.chIdx.isLt
    rw [UInt8.le_iff_toNat_le, Leb128.toNat_ofNat_of_lt (by omega)]
    exact Nat.le_of_lt_succ hlt
  rw [AmbiRTC.Packet.marshalBinary_of_le hle, Single.bytes, AmbiRTC.Packet.control]
  cases p.output.isRec
  · simp
  · simp [UInt8.or_comm]

/-- What the server hands to its decoders is an output of the encoders. -/
def FromOutput (outs : List Output) (p : InboundPkt) : Prop :=
  ∃ o ∈ outs, p.chIdx.toNat = o.chIdx ∧ p.frameTs = UInt32.ofNat o.frameTs ∧ p.payload = o.payload

theorem FromOutput.mono {outs outs' : List Output} {p : InboundPkt} (h : FromOutput outs p)
    (hsub : ∀ o ∈ outs, o ∈ outs') : FromOutput outs' p :=
  h.imp fun _ ho => ⟨hsub _ ho.1, ho.2⟩

/-- What a callback does with a packet of the browser. -/
structure Handled (outs : List Output) (now : ℤ) (u u' : Uplink) : Prop where
  deadline : u'.recDeadline = u.recDeadline ∨
    u'.recDeadline = now + recHangover ∧ ∃ o ∈ outs, o.isRec = true
  handed : ∃ handed, u'.handed = u.handed ++ handed ∧ ∀ p ∈ handed, FromOutput outs p

section

variable {outs : List Output} {now : ℤ} {u : Uplink} {data : Slice UInt8}

/-- The latch is armed if the packet is flagged, and its payloads are handed on. -/
theorem handled_marked {isRec : Bool} (hrec : isRec = true → ∃ o ∈ outs, o.isRec = true)
    {handed : List InboundPkt} (h : ∀ p ∈ handed, FromOutput outs p) :
    Handled outs now u
      { recDeadline := (if isRec then u.markRecording now else u).recDeadline
        handed := (if isRec then u.markRecording now else u).handed ++ handed } := by
  refine ⟨?_, handed, ?_, h⟩
  · cases isRec
    · exact Or.inl rfl
    · exact Or.inr ⟨rfl, hrec rfl⟩
  · cases isRec <;> rfl

theorem handled_of_bundle {p : Packet} (h : p.MadeOf outs) (hdata : data.data = p.bytes)
    (hlen : p.bytes.length < 2 ^ 32) :
    ∃ u', handlePacket now u data = some u' ∧ Handled outs now u u' := by
  obtain ⟨chans, hvalid, hchans⟩ := h.wellFormed
  have hmarshal := p.marshalled_eq hvalid hchans hlen
  have hpacket : PacketOf data.data (UInt32.ofNat p.frameTs) (sortByChIdx chans) p.isRec := by
    rw [hdata]
    exact marshalBundle_packetOf hmarshal (hlen.trans (by decide))
  rw [handlePacket, if_pos (isBundle_of_parses hpacket), hpacket.parseBundle_eq]
  simp only [Option.bind_eq_bind, Option.bind_some, Uplink.pushChannels_eq]
  refine ⟨_, rfl, handled_marked h.recorded fun q hq => ?_⟩
  obtain ⟨ch, hch, rfl⟩ := List.mem_map.mp hq
  have hin : Chan.of ch ∈ p.chans := by
    rw [hchans]
    exact List.mem_map_of_mem ((sortByChIdx_perm chans).mem_iff.mp (List.mem_of_mem_filter hch))
  obtain ⟨o, ho, hts, heq⟩ := h.chans _ hin
  obtain ⟨hidx, hpayload⟩ := Chan.mk.inj heq
  exact ⟨o, ho, by exact_mod_cast hidx, by rw [hts], hpayload⟩

theorem handled_of_single {p : Single} (h : p.output ∈ outs) (hdata : data.data = p.bytes) :
    ∃ u', handlePacket now u data = some u' ∧ Handled outs now u u' := by
  have hidx : (UInt8.ofNat p.output.chIdx).toNat = p.output.chIdx :=
    Leb128.toNat_ofNat_of_lt (by omega)
  have hle : UInt8.ofNat p.output.chIdx ≤ 15 := by
    rw [UInt8.le_iff_toNat_le, hidx]
    exact Nat.le_of_lt_succ p.output.chIdx.isLt
  have hbytes := p.marshalled_eq
  rw [AmbiRTC.Packet.marshalBinary_of_le hle] at hbytes
  have hlegacy : ¬ IsBundle data.data := by
    rw [hdata, ← Except.ok.inj hbytes]
    exact fun hbundle => (AmbiRTC.Packet.control_bits hle).2.2 hbundle.2
  rw [handlePacket, if_neg hlegacy, hdata, ← Except.ok.inj hbytes,
    AmbiRTC.Packet.parse_marshalled hle]
  have hrec : p.output.isRec = true → ∃ o ∈ outs, o.isRec = true := fun hflag => ⟨_, h, hflag⟩
  simp only
  split
  · refine ⟨_, rfl, ?_⟩
    have hnone := @handled_marked outs now u _ hrec [] fun _ hq => by cases hq
    rwa [List.append_nil] at hnone
  · refine ⟨_, rfl, handled_marked hrec fun q hq => ?_⟩
    rw [List.mem_singleton.mp hq]
    exact ⟨p.output, h, hidx, rfl, rfl⟩

/-- **The server reads off a packet what the encoders gave**, whatever its format. -/
theorem Sender.handled_of_sent {s : Sender} (h : s.Made outs) {buf : List UInt8}
    (hbuf : buf ∈ s.wire) (hlen : buf.length < 2 ^ 32) (hdata : data.data = buf) :
    ∃ u', handlePacket now u data = some u' ∧ Handled outs now u u' := by
  rcases List.mem_append.mp hbuf with hin | hin
  · obtain ⟨p, hp, rfl⟩ := List.mem_map.mp hin
    exact handled_of_bundle (h.tx.sent p hp) hdata hlen
  · obtain ⟨p, hp, rfl⟩ := List.mem_map.mp hin
    exact handled_of_single (h.singles p hp) hdata

end

end AmbiRTC.Client
