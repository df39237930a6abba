/-
AmbiRTC/DownlinkIntegrity.lean

The downlink from end to end: the encode pipeline of a session, a network that
may lose packets, repeat them and deliver them in any order, and the browser's
gates in front of its decoders.

Main result: whatever the interleaving on the server and whatever the network
does, each decoder is given only payloads that its own channel was encoded to,
each under the timestamp of the mix it was encoded from, in strictly increasing
order of timestamps; and only frames that were submitted as recorded are recorded
(`downlink_intact`).
-/
import AmbiRTC.ClientRoundTrip
import AmbiRTC.Demux
import AmbiRTC.DownlinkStream
import AmbiRTC.PipelinePackets

namespace AmbiRTC.Downlink

open Assembly Runs Words

variable {α : Type}

/-! ### Reading packets -/

/-- The packet brings the chunk to the channel's decoder. -/
def Packet.Brings (c : Channel) (chunk : Chunk) : Packet → Prop
  | .single chIdx _ frameTs data => chIdx = c ∧ chunk = ⟨frameTs, data⟩
  | .bundle frameTs chans _ => (c, chunk.data) ∈ chans ∧ chunk.frameTs = frameTs

/-- The recording flag of a packet. -/
def Packet.isRec : Packet → Bool
  | .single _ isRec _ _ => isRec
  | .bundle _ _ isRec => isRec

theorem toChannel_eq_some {chIdx : UInt8} {c : Channel} :
    toChannel chIdx = some c ↔ chIdx.toNat = c.val := by
  unfold toChannel
  split
  next h =>
    rw [Option.some.injEq, Fin.ext_iff]
  next h =>
    refine ⟨fun hc => (by cases hc), fun hc => absurd ?_ h⟩
    rw [hc]
    exact c.isLt

theorem totalBytes_le_of_marshal {frameTs : UInt32} {chans : List ChannelPayload} {isRec : Bool}
    {buf : List UInt8} (h : marshalBundle frameTs chans isRec = .ok buf) :
    totalBytes chans ≤ buf.length := by
  obtain ⟨mask, -, hbuf⟩ := marshalBundle_of_valid (valid_of_marshalBundle h) frameTs isRec
  obtain rfl := Except.ok.inj (h.symm.trans hbuf)
  rw [List.length_append, length_flatMap_payload, totalBytes_sort]
  exact Nat.le_add_left _ _

/-- A bundle is read back as the server marshalled it. -/
theorem readPacket_bundle {frameTs : UInt32} {chans : List ChannelPayload} {isRec : Bool}
    {buf : List UInt8} (h : marshalBundle frameTs chans isRec = .ok buf)
    (hlen : buf.length < 2 ^ 32) : ∃ chans', readPacket buf = some (.bundle frameTs chans' isRec) ∧
      ∀ c data, (c, data) ∈ chans' → ∃ ch ∈ chans, ch.chIdx.toNat = c.val ∧ ch.payload = data := by
  have hpacket := marshalBundle_packetOf h (hlen.trans (by decide))
  have htotal : totalBytes (sortByChIdx chans) < 2 ^ 32 := by
    rw [totalBytes_sort]
    exact (totalBytes_le_of_marshal h).trans_lt hlen
  have hparse := Client.parseBundle_packetOf hpacket htotal
  have hguard : buf.length ≥ 7 ∧ buf.getD 0 0 >>> 4 = bundleVersion :=
    ⟨hpacket.header.length, (version_iff _).mpr hpacket.header.version⟩
  refine ⟨_, by rw [readPacket, if_pos hguard, hparse], fun c data hin => ?_⟩
  obtain ⟨ch, hch, heq⟩ := List.mem_filterMap.mp hin
  obtain ⟨c', hc', heq⟩ := Option.map_eq_some_iff.mp heq
  obtain ⟨rfl, rfl⟩ := Prod.mk.inj heq
  exact ⟨ch, (sortByChIdx_perm chans).mem_iff.mp hch, toChannel_eq_some.mp hc', rfl⟩

/-- A packet of one channel is read back, if it has a payload. -/
theorem readPacket_single {p : AmbiRTC.Packet} {buf : List UInt8} {q : Packet}
    (h : p.marshalBinary = .ok buf) (hq : readPacket buf = some q) :
    ∃ c : Channel, p.chIdx.toNat = c.val ∧ q = .single c p.isRec p.frameTs p.payload := by
  have hle : p.chIdx ≤ 15 := by
    rw [AmbiRTC.Packet.marshalBinary, AmbiRTC.Packet.appendTo] at h
    split at h
    · cases h
    next hgt => exact UInt8.not_lt.mp hgt
  have hversion := (AmbiRTC.Packet.control_bits hle).2.2
  have hparse := AmbiRTC.Packet.parse_marshalled hle
  obtain rfl := Except.ok.inj ((AmbiRTC.Packet.marshalBinary_of_le hle).symm.trans h)
  -- the server's parser reads the same bytes
  generalize hbuf : p.control :: (putLeUInt32 p.seqNum ++ putLeUInt32 p.frameTs) ++ p.payload
    = buf at hparse hq
  have hguard : ¬ (buf.length ≥ 7 ∧ buf.getD 0 0 >>> 4 = bundleVersion) := by
    rw [← hbuf]
    exact fun hboth => hversion hboth.2
  have hlong : ¬ buf.length < AmbiRTC.headerSize := by
    rw [← hbuf, List.length_append]
    exact not_lt.mpr (Nat.le_add_right 9 _)
  rw [AmbiRTC.Packet.parse, if_neg hlong] at hparse
  obtain rfl := Except.ok.inj hparse
  rw [readPacket, if_neg hguard] at hq
  split at hq
  · cases hq
  · obtain ⟨c, hc, rfl⟩ := Option.map_eq_some_iff.mp hq
    exact ⟨c, toChannel_eq_some.mp hc, rfl⟩

/-! ### What a packet leaves -/

namespace Receiver

variable {r : Receiver α} {c : Channel} {chunk : Chunk}

theorem submitted_decode {chIdx : Channel} {frameTs : UInt32} {data : List UInt8}
    (h : chunk ∈ (r.decode chIdx frameTs data).submitted c) :
    chunk ∈ r.submitted c ∨ (chIdx = c ∧ chunk = ⟨frameTs, data⟩) := by
  unfold decode acceptInOrder at h
  by_cases hlate : (frameTs.toNat : ℤ) ≤ r.lastDecodedTs chIdx
  · simp only [if_pos hlate, Bool.not_false, if_true] at h
    exact Or.inl h
  · simp only [if_neg hlate, Bool.not_true, Bool.false_eq_true, if_false] at h
    rcases eq_or_ne c chIdx with rfl | hne
    · rw [Function.update_self, List.mem_append, List.mem_singleton] at h
      exact h.imp_right fun heq => ⟨rfl, heq⟩
    · rw [Function.update_of_ne hne] at h
      exact Or.inl h

theorem submitted_decodeOnce {frameTs : UInt32} {ch : Channel × List UInt8}
    (h : chunk ∈ (r.decodeOnce frameTs ch).submitted c) :
    chunk ∈ r.submitted c ∨ (ch.1 = c ∧ chunk = ⟨frameTs, ch.2⟩) := by
  unfold decodeOnce at h
  split at h
  · exact Or.inl h
  · simp only at h
    split at h
    · exact Or.inl h
    · have hcases := submitted_decode h
      exact hcases

theorem submitted_decodeAll {frameTs : UInt32} {chans : List (Channel × List UInt8)}
    (h : chunk ∈ (chans.foldl (decodeOnce frameTs) r).submitted c) :
    chunk ∈ r.submitted c ∨ ((c, chunk.data) ∈ chans ∧ chunk.frameTs = frameTs) := by
  induction chans generalizing r with
  | nil => exact Or.inl h
  | cons ch chans ih =>
    rcases ih h with hin | ⟨hin, hts⟩
    · rcases submitted_decodeOnce hin with hin | ⟨rfl, rfl⟩
      · exact Or.inl hin
      · exact Or.inr ⟨List.mem_cons_self, rfl⟩
    · exact Or.inr ⟨List.mem_cons_of_mem ch hin, hts⟩

/-- A decoder is given nothing that the packet does not bring. -/
theorem submitted_onDcMessage {buf : List UInt8} {p : Packet} (hp : readPacket buf = some p)
    (h : chunk ∈ (r.onDcMessage buf).submitted c) : chunk ∈ r.submitted c ∨ p.Brings c chunk := by
  unfold onDcMessage at h
  rw [hp] at h
  cases p with
  | single chIdx isRec frameTs data =>
    simp only [onSingle] at h
    split at h
    · exact Or.inl h
    split at h
    · exact Or.inl h
    split at h
    · exact Or.inl h
    have hcases := submitted_decode h
    refine hcases.imp_left fun hin => ?_
    split at hin <;> exact hin
  | bundle frameTs chans isRec =>
    simp only [onBundle] at h
    split at h
    · exact Or.inl h
    split at h
    · exact Or.inl h
    rcases submitted_decodeAll h with hin | hin
    · left
      repeat' split at hin
      all_goals exact hin
    · exact Or.inr hin

/-! ### What is recorded -/

theorem recorded_decode (r : Receiver α) (chIdx : Channel) (frameTs : UInt32) (data : List UInt8) :
    (r.decode chIdx frameTs data).rx.rxRecSet = r.rx.rxRecSet ∧
      (r.decode chIdx frameTs data).rx.rxRecFrames = r.rx.rxRecFrames := by
  unfold decode acceptInOrder Rx.pushDecoderTimestamp
  by_cases hlate : (frameTs.toNat : ℤ) ≤ r.lastDecodedTs chIdx
  · simp only [if_pos hlate, Bool.not_false, if_true, and_self]
  · simp only [if_neg hlate, Bool.not_true, Bool.false_eq_true, if_false]
    split <;> exact ⟨rfl, rfl⟩

theorem recorded_decodeAll (r : Receiver α) (frameTs : UInt32)
    (chans : List (Channel × List UInt8)) :
    (chans.foldl (decodeOnce frameTs) r).rx.rxRecSet = r.rx.rxRecSet ∧
      (chans.foldl (decodeOnce frameTs) r).rx.rxRecFrames = r.rx.rxRecFrames := by
  induction chans generalizing r with
  | nil => exact ⟨rfl, rfl⟩
  | cons ch chans ih =>
    have hone : (r.decodeOnce frameTs ch).rx.rxRecSet = r.rx.rxRecSet ∧
        (r.decodeOnce frameTs ch).rx.rxRecFrames = r.rx.rxRecFrames := by
      unfold decodeOnce
      split
      · exact ⟨rfl, rfl⟩
      · simp only
        split
        · exact ⟨rfl, rfl⟩
        · exact recorded_decode _ ch.1 frameTs ch.2
    obtain ⟨hset, hframes⟩ := ih (r.decodeOnce frameTs ch)
    exact ⟨hset.trans hone.1, hframes.trans hone.2⟩

/-- Nothing but frame `frameTs` is marked, and nothing is recorded. -/
def Marks (isRec : Bool) (frameTs : UInt32) (r r' : Receiver α) : Prop :=
  (∀ ts ∈ r'.rx.rxRecSet, ts ∈ r.rx.rxRecSet ∨ (isRec = true ∧ ts = (frameTs.toNat : ℤ))) ∧
    r'.rx.rxRecFrames = r.rx.rxRecFrames

theorem Marks.refl (isRec : Bool) (frameTs : UInt32) (r : Receiver α) : Marks isRec frameTs r r :=
  ⟨fun _ h => Or.inl h, rfl⟩

theorem marks_noted {isRec : Bool} {frameTs : UInt32} {r₁ : Receiver α}
    (h : (if isRec = true then { r with rx := r.rx.markRxRecording frameTs.toNat } else r) = r₁) :
    Marks isRec frameTs r r₁ := by
  subst h
  split
  next hrec => exact ⟨fun ts hin => (List.mem_cons.mp hin).symm.imp_right fun h => ⟨hrec, h⟩, rfl⟩
  next => exact .refl isRec frameTs r

/-- A packet marks its own frame for recording, and that only if it is flagged. -/
theorem marks_onDcMessage {buf : List UInt8} {p : Packet} (hp : readPacket buf = some p) :
    Marks p.isRec p.frameTs r (r.onDcMessage buf) := by
  unfold onDcMessage
  rw [hp]
  cases p with
  | single chIdx isRec frameTs data =>
    simp only [onSingle]
    split
    · exact .refl isRec frameTs r
    split
    · exact .refl isRec frameTs r
    split
    · exact .refl isRec frameTs r
    generalize hr : (if isRec = true then _ else _ : Receiver α) = r₁
    obtain ⟨hset, hframes⟩ := recorded_decode r₁ chIdx frameTs data
    obtain ⟨hmarks, hsame⟩ := marks_noted hr
    exact ⟨fun ts hin => hmarks ts (hset ▸ hin), hframes.trans hsame⟩
  | bundle frameTs chans isRec =>
    simp only [onBundle]
    split
    · exact .refl isRec frameTs r
    split
    · exact .refl isRec frameTs r
    generalize hr : (if isRec = true then _ else _ : Receiver α) = r₁
    obtain ⟨hmarks, hsame⟩ := marks_noted hr
    split
    · obtain ⟨hset, hframes⟩ := recorded_decodeAll
        { r₁ with rxBundleTs := frameTs.toNat, rxBundleSeen := fun _ => false } frameTs chans
      exact ⟨fun ts hin => hmarks ts (hset ▸ hin), hframes.trans hsame⟩
    · obtain ⟨hset, hframes⟩ := recorded_decodeAll r₁ frameTs chans
      exact ⟨fun ts hin => hmarks ts (hset ▸ hin), hframes.trans hsame⟩

end Receiver

/-! ### The assembly of frames -/

/-- No frame is marked, and what is recorded was marked. -/
structure Records (s s' : Rx α) : Prop where
  marked : ∀ ts ∈ s'.rxRecSet, ts ∈ s.rxRecSet
  recorded : ∀ f ∈ s'.rxRecFrames, f ∈ s.rxRecFrames ∨ f.ts ∈ s.rxRecSet

namespace Records

variable {s s' s'' : Rx α} {cfg : Config α}

theorem of_same (hset : s'.rxRecSet = s.rxRecSet) (hframes : s'.rxRecFrames = s.rxRecFrames) :
    Records s s' :=
  ⟨fun _ h => hset ▸ h, fun _ h => Or.inl (hframes ▸ h)⟩

theorem trans (h : Records s s') (h' : Records s' s'') : Records s s'' where
  marked ts hin := h.marked ts (h'.marked ts hin)
  recorded f hf := (h'.recorded f hf).elim (h.recorded f) fun hin => Or.inr (h.marked f.ts hin)

theorem releaseFrameSlot {t : Rx α} (hset : t.rxRecSet = s.rxRecSet)
    (hframes : t.rxRecFrames = s.rxRecFrames) (k : ℕ) : Records s (t.releaseFrameSlot cfg k) := by
  unfold Rx.releaseFrameSlot
  simp only
  split <;> exact .of_same hset hframes

theorem record (s : Rx α) (frame : FrameSlot α) : Records s (s.record cfg frame) := by
  unfold Rx.record
  split
  next hin =>
    refine ⟨fun ts hts => List.mem_of_mem_filter hts, fun f hf => ?_⟩
    rcases List.mem_append.mp hf with hf | hf
    · exact Or.inl hf
    · rw [List.mem_singleton.mp hf]
      exact Or.inr hin.2
  next => exact .of_same rfl rfl

theorem dispatchFrame {t : Rx α} (hset : t.rxRecSet = s.rxRecSet)
    (hframes : t.rxRecFrames = s.rxRecFrames) (k : ℕ) : Records s (t.dispatchFrame cfg k) := by
  unfold Rx.dispatchFrame
  split
  · exact releaseFrameSlot hset hframes k
  · have hrecord := (of_same hset hframes).trans (@record _ cfg t (t.slots k))
    simp only
    split
    · refine hrecord.trans ?_
      apply releaseFrameSlot <;> rfl
    · exact hrecord

theorem flushFrame (s : Rx α) (frameTs : ℤ) : Records s (s.flushFrame cfg frameTs) := by
  unfold Rx.flushFrame
  simp only
  split
  · exact .of_same rfl rfl
  split
  · exact .of_same rfl rfl
  split
  · apply releaseFrameSlot <;> rfl
  · apply dispatchFrame <;> simp only <;> split <;> rfl

theorem openSlot (s : Rx α) (frameTs : ℤ) (frameSize : ℕ) :
    Records s (s.openSlot cfg frameTs frameSize).1 := by
  unfold Rx.openSlot Rx.acquireFrameSlot
  cases s.frameSlotPool <;> exact .of_same rfl rfl

theorem slotFor (s : Rx α) (frameTs : ℤ) (frameSize : ℕ) :
    Records s (s.slotFor cfg frameTs frameSize).1 := by
  unfold Rx.slotFor
  split
  · split
    · exact .of_same rfl rfl
    · exact (flushFrame s _).trans (openSlot _ frameTs frameSize)
  · exact openSlot s frameTs frameSize

theorem complete (s : Rx α) (k : ℕ) (frameTs : ℤ) : Records s (s.complete cfg k frameTs) := by
  unfold Rx.complete
  split
  · apply dispatchFrame <;> rfl
  · exact .of_same rfl rfl

/-- **A decoder output** records at most frames that are marked. -/
theorem onDecoderOutput (s : Rx α) (c : Channel) (audioData : List α) :
    Records s (s.onDecoderOutput cfg c audioData) := by
  have hshift : Records s (s.shiftDecoderTimestamp c).1 := by
    unfold Rx.shiftDecoderTimestamp
    split <;> exact .of_same rfl rfl
  unfold Rx.onDecoderOutput
  simp only
  split
  · exact hshift
  split
  · exact hshift
  have hslot := hshift.trans (@slotFor _ cfg _ (s.shiftDecoderTimestamp c).2 audioData.length)
  split
  · exact hslot
  · refine hslot.trans (.trans (.of_same ?_ ?_) (complete _ _ _)) <;>
      unfold Rx.storePlane <;> simp only <;> split <;> rfl

end Records

variable {cfg : Config α} {s s' : State α}

/-! ### From the room to the decoders -/

section

variable {A : Type} {K : ℕ} {pcfg : Pipeline.Config A}

/-- What the browser has of the calls of `SubmitMix`.  The chunks of a decoder come in
increasing order of timestamps; each is what its channel was encoded to in some call,
under the timestamp of that call; and a frame in an RX recording was submitted as
recorded. -/
structure Intact (xs : List (Pipeline.Submission A)) (p : Pipeline.State A K) (r : Receiver α) :
    Prop where
  increasing : ∀ c, (r.submitted c).Pairwise fun a b => a.frameTs < b.frameTs
  payload : ∀ c, ∀ chunk ∈ r.submitted c, ∃ u x, xs[u]? = some x ∧ chunk.frameTs = x.frameTs ∧
    (p.log u).encoded c = some (x.pcm c, some chunk.data)
  recorded : ∀ f ∈ r.rx.rxRecFrames, ∃ x ∈ xs, x.isRec = true ∧ f.ts = (x.frameTs.toNat : ℤ)

/-- The part of it that each event keeps, with the frames that are marked. -/
structure Faithful (xs : List (Pipeline.Submission A)) (p : Pipeline.State A K) (r : Receiver α) :
    Prop where
  payload : ∀ c, ∀ chunk ∈ r.submitted c, ∃ u x, xs[u]? = some x ∧ chunk.frameTs = x.frameTs ∧
    (p.log u).encoded c = some (x.pcm c, some chunk.data)
  marked : ∀ ts ∈ r.rx.rxRecSet, ∃ x ∈ xs, x.isRec = true ∧ ts = (x.frameTs.toNat : ℤ)
  recorded : ∀ f ∈ r.rx.rxRecFrames, ∃ x ∈ xs, x.isRec = true ∧ f.ts = (x.frameTs.toNat : ℤ)

variable {xs : List (Pipeline.Submission A)} {p : Pipeline.State A K} {r : Receiver α}

/-- What a genuine packet says is so. -/
theorem brings_of_genuine {item : Pipeline.Outgoing} {x : Pipeline.Submission A} {q : Packet}
    (h : Pipeline.Genuine pcfg p x item) (hlen : item.buf.length < 2 ^ 32)
    (hq : readPacket item.buf = some q) : q.frameTs = x.frameTs ∧ q.isRec = x.isRec ∧
      ∀ c chunk, q.Brings c chunk → chunk.frameTs = x.frameTs ∧
        (p.log item.use).encoded c = some (x.pcm c, some chunk.data) := by
  cases h with
  | bundle group chans hbundled hgroup hbuf hchans =>
    obtain ⟨chans', hread, hsource⟩ := readPacket_bundle hbuf hlen
    obtain rfl := Option.some.inj (hread.symm.trans hq)
    refine ⟨rfl, rfl, fun c chunk hbrings => ⟨hbrings.2, ?_⟩⟩
    obtain ⟨ch, hch, hidx, hpayload⟩ := hsource c chunk.data hbrings.1
    obtain ⟨-, -, hencoded⟩ := hchans ch hch
    rw [hidx, hpayload] at hencoded
    exact hencoded
  | single packet hbundled hbuf hts hrec hencoded =>
    obtain ⟨c, hidx, rfl⟩ := readPacket_single hbuf hq
    refine ⟨hts, hrec, fun c' chunk hbrings => ?_⟩
    obtain ⟨rfl, rfl⟩ := hbrings
    rw [hidx] at hencoded
    exact ⟨hts, hencoded⟩

theorem Faithful.packet (h : Faithful xs p r) {buf : List UInt8}
    (hsent : ∃ item ∈ p.sent, item.buf = buf) (hlen : buf.length < 2 ^ 32)
    (hgenuine : Pipeline.AllGenuine pcfg xs p) : Faithful xs p (r.onDcMessage buf) := by
  rcases hq : readPacket buf with - | q
  · have hsame : r.onDcMessage buf = r := by
      rw [Receiver.onDcMessage, hq]
    rw [hsame]
    exact h
  obtain ⟨item, hitem, rfl⟩ := hsent
  obtain ⟨x, hx, hitem⟩ := hgenuine item (Or.inl (List.mem_append_left _ hitem))
  obtain ⟨hts, hrec, hbrings⟩ := brings_of_genuine hitem hlen hq
  obtain ⟨hmarks, hframes⟩ := r.marks_onDcMessage hq
  refine ⟨fun c chunk hin => ?_, fun ts hin => ?_, fun f hf => h.recorded f (hframes ▸ hf)⟩
  · rcases Receiver.submitted_onDcMessage hq hin with hin | hin
    · exact h.payload c chunk hin
    · obtain ⟨hchunk, hencoded⟩ := hbrings c chunk hin
      exact ⟨item.use, x, hx, hchunk, hencoded⟩
  · rcases hmarks ts hin with hin | ⟨hflag, hmark⟩
    · exact h.marked ts hin
    · exact ⟨x, List.mem_of_getElem? hx, hrec ▸ hflag, by rw [hmark, hts]⟩

theorem Faithful.records (h : Faithful xs p r) {rx : Rx α} (hrecords : Records r.rx rx) :
    Faithful xs p { r with rx := rx } :=
  ⟨h.payload, fun ts hin => h.marked ts (hrecords.marked ts hin),
    fun f hf => (hrecords.recorded f hf).elim (h.recorded f) (h.marked f.ts)⟩

/-- A timer records at most frames that are marked. -/
theorem records_fire {a : Assembly.Action α} (ha : (∃ id, a = .timeout id) ∨ a = .recorded)
    {rx : Rx α} {t : Assembly.State α} (h : Assembly.step cfg ⟨rx, [], []⟩ a = some t) :
    Records rx t.rx := by
  rcases ha with ⟨id, rfl⟩ | rfl
  · simp only [Assembly.step] at h
    split at h
    next e he =>
      obtain rfl := Option.some.inj h
      refine .trans (.of_same ?_ ?_) (Records.flushFrame _ e.2) <;> rfl
    next => cases h
  · simp only [Assembly.step] at h
    split at h
    next =>
      obtain rfl := Option.some.inj h
      exact ⟨fun _ hin => (by cases hin), fun _ hf => (by cases hf)⟩
    next => cases h

theorem Faithful.step (h : Faithful xs p s.receiver) (hgenuine : Pipeline.AllGenuine pcfg xs p)
    {a : Action α} (hsent : ∀ buf, a.arrival = some buf →
      (∃ item ∈ p.sent, item.buf = buf) ∧ buf.length < 2 ^ 32)
    (hstep : Downlink.step cfg s a = some s') : Faithful xs p s'.receiver := by
  cases a with
  | message buf =>
    obtain rfl := Option.some.inj hstep
    exact h.packet (hsent buf rfl).1 (hsent buf rfl).2 hgenuine
  | output c audioData =>
    simp only [Downlink.step] at hstep
    split at hstep
    · obtain rfl := Option.some.inj hstep
      exact h.records (Records.onDecoderOutput _ c audioData)
    · cases hstep
  | timeout id =>
    obtain ⟨t, ht, rfl⟩ := Option.map_eq_some_iff.mp hstep
    exact h.records (records_fire (Or.inl ⟨id, rfl⟩) ht)
  | recorded =>
    obtain ⟨t, ht, rfl⟩ := Option.map_eq_some_iff.mp hstep
    exact h.records (records_fire (Or.inr rfl) ht)

/-- What holds of a browser that is sent the packets of a pipeline. -/
theorem sound_of_runs (hK : 0 < K) {as : List (Pipeline.Action A K)}
    (hp : Run (Pipeline.step pcfg) (Pipeline.initial pcfg) as p) {es : List (Action α)}
    (hs : Run (step cfg) (start cfg) es s)
    (hsent : ∀ buf ∈ arrivals es, (∃ item ∈ p.sent, item.buf = buf) ∧ buf.length < 2 ^ 32) :
    Sound cfg s ∧ Faithful (Pipeline.submissions as) p s.receiver := by
  have hgenuine := Pipeline.packets_genuine pcfg hK hp
  refine hs.invariant_of_along
    (I := fun s => Sound cfg s ∧ Faithful (Pipeline.submissions as) p s.receiver)
    (P := fun _ e => ∀ buf, e.arrival = some buf →
      (∃ item ∈ p.sent, item.buf = buf) ∧ buf.length < 2 ^ 32) ?_ ?_ ⟨sound_start cfg, ?_⟩
  · rintro s₁ e s₂ ⟨hsound, hfaithful⟩ hpacket hstep
    exact ⟨hsound.step hstep, hfaithful.step hgenuine hpacket hstep⟩
  · intro es₁ e es₂ s₁ hes hrun buf hbuf
    have hin : buf ∈ arrivals es := by
      rw [hes]
      exact List.mem_filterMap.mpr ⟨e, List.mem_append_right _ List.mem_cons_self, hbuf⟩
    exact hsent buf hin
  · exact ⟨fun _ _ hin => (by cases hin), fun _ hin => (by cases hin),
      fun _ hf => (by cases hf)⟩

/-- The chunks of a decoder come in increasing order of timestamps. -/
theorem Sound.submitted_increasing (h : Sound cfg s) (c : Channel) :
    (s.receiver.submitted c).Pairwise fun a b => a.frameTs < b.frameTs := by
  have hincreasing := h.increasing c
  rw [State.accepted, List.map_map, List.pairwise_map] at hincreasing
  exact hincreasing.imp fun hlt => UInt32.lt_iff_toNat_lt.mpr hlt

/-- **The downlink end to end.**  Let the pipeline run in any way, and let the network
deliver any of the packets it has sent, as often as it likes and in any order: what the
browser's decoders are given, and what it records, is intact. -/
theorem downlink_intact (hK : 0 < K) {as : List (Pipeline.Action A K)}
    (hp : Run (Pipeline.step pcfg) (Pipeline.initial pcfg) as p) {es : List (Action α)}
    (hs : Run (step cfg) (start cfg) es s)
    (hsent : ∀ buf ∈ arrivals es, ∃ item ∈ p.sent, item.buf = buf)
    (hlen : ∀ buf ∈ arrivals es, buf.length < 2 ^ 32) :
    Intact (Pipeline.submissions as) p s.receiver := by
  obtain ⟨hsound, hfaithful⟩ :=
    sound_of_runs hK hp hs fun buf hbuf => ⟨hsent buf hbuf, hlen buf hbuf⟩
  exact ⟨hsound.submitted_increasing, hfaithful.payload, hfaithful.recorded⟩

end

/-- The packets the pipeline has sent come in twice, the second time in reverse order. -/
def echoes {A : Type} {K : ℕ} (p : Pipeline.State A K) : List (Action ℕ) :=
  (p.sent ++ p.sent.reverse).map fun item => .message item.buf

theorem arrivals_echoes {A : Type} {K : ℕ} (p : Pipeline.State A K) {buf : List UInt8}
    (h : buf ∈ arrivals (echoes p)) : ∃ item ∈ p.sent, item.buf = buf := by
  obtain ⟨e, he, hbuf⟩ := List.mem_filterMap.mp h
  obtain ⟨item, hitem, rfl⟩ := List.mem_map.mp he
  refine ⟨item, ?_, Option.some.inj hbuf⟩
  rw [List.mem_append, List.mem_reverse, or_self] at hitem
  exact hitem

/-- Two frames, each encoded by two workers and sent in four bundles.  The encoder fails on
channel 5 of the first; the second is recorded. -/
def duoSent : List (Pipeline.Action ℕ 2) :=
  Pipeline.duo ++ List.replicate 4 .transmit
  ++ [.submit (fun c => c + 20) 1920 true (some 0), .fill, .pushMix, .dispatch, .sendJob, .sendJob]
  ++ (List.finRange 2).map .take
  ++ (List.finRange 2).flatMap (fun w => List.replicate 8 (.encode w (some [5])))
  ++ (List.finRange 2).map .finish
  ++ (List.range 4).flatMap (fun _ => [.marshal (Fin.last 1), .push (Fin.last 1)])
  ++ [.marshal (Fin.last 1), .release (Fin.last 1)] ++ List.replicate 4 .transmit

/-- The browser of these frames. -/
def duoPlayback : Config ℕ := ⟨960, 0, fun _ pcm => pcm⟩

/-- Its decoders give back all they were given; channel 5 was not in the first frame. -/
def duoDecoded : List (Action ℕ) :=
  ((List.finRange 16).filter fun c => c.val ≠ 5).map (fun c => .output c [7]) ++
    (List.finRange 16).map fun c => .output c [8]

theorem arrivals_heard {A : Type} {K : ℕ} (p : Pipeline.State A K) {buf : List UInt8}
    (h : buf ∈ arrivals (echoes p ++ duoDecoded)) : ∃ item ∈ p.sent, item.buf = buf := by
  have hnone : arrivals duoDecoded = [] := by decide
  rw [arrivals, List.filterMap_append] at h
  rcases List.mem_append.mp h with h | h
  · exact arrivals_echoes p h
  · rw [show duoDecoded.filterMap Action.arrival = [] from hnone] at h
    cases h

/-- Channel 5 is decoded once, the others twice, and the second frame is recorded. -/
theorem downlink_intact_duo : ∃ p s,
    Run (Pipeline.step Pipeline.duoConfig) (Pipeline.initial Pipeline.duoConfig) duoSent p ∧
      Run (step duoPlayback) (start duoPlayback) (echoes p ++ duoDecoded) s ∧
      (arrivals (echoes p ++ duoDecoded)).length = 16 ∧
      s.receiver.submitted 3 = [⟨960, [7]⟩, ⟨1920, [5]⟩] ∧
      s.receiver.submitted 5 = [⟨1920, [5]⟩] ∧
      s.receiver.rx.rxRecFrames.map RecordedFrame.ts = [1920] ∧
      Intact (Pipeline.submissions duoSent) p s.receiver := by
  obtain ⟨p, hp, hsession⟩ := (Option.any_eq_true _ _).mp
    (by decide +kernel : (exec (Pipeline.step Pipeline.duoConfig)
      (Pipeline.initial Pipeline.duoConfig) duoSent).any (fun p =>
        (exec (step duoPlayback) (start duoPlayback) (echoes p ++ duoDecoded)).any fun s =>
          decide ((arrivals (echoes p ++ duoDecoded)).length = 16 ∧
            s.receiver.submitted 3 = [⟨960, [7]⟩, ⟨1920, [5]⟩] ∧
            s.receiver.submitted 5 = [⟨1920, [5]⟩] ∧
            s.receiver.rx.rxRecFrames.map RecordedFrame.ts = [1920] ∧
            ∀ buf ∈ arrivals (echoes p ++ duoDecoded), buf.length < 2 ^ 32)) = true)
  obtain ⟨s, hs, hchecks⟩ := (Option.any_eq_true _ _).mp hsession
  obtain ⟨harrivals, hthird, hfifth, hrecorded, hlen⟩ := of_decide_eq_true hchecks
  exact ⟨p, s, .of_exec hp, .of_exec hs, harrivals, hthird, hfifth, hrecorded,
    downlink_intact (by decide) (.of_exec hp) (.of_exec hs) (fun _ => arrivals_heard p) hlen⟩

end AmbiRTC.Downlink
