/-
AmbiRTC/DownlinkSteps.lean

What a packet of the room does to the receiver.  The frames under way are left
alone; each channel is skipped, or its decoder is given a chunk, and that only if
the packet's timestamp is greater than the one of its last chunk.

Main result: `Receiver.Gated.onDcMessage` (`Handled`), one packet.
-/
import AmbiRTC.DownlinkGates
import AmbiRTC.Runs

namespace AmbiRTC.Downlink

open Assembly Runs

/-- The timestamp of a packet. -/
def Packet.frameTs : Packet → UInt32
  | .single _ _ frameTs _ => frameTs
  | .bundle frameTs _ _ => frameTs

/-- The channels of a packet. -/
def Packet.channels : Packet → List Channel
  | .single chIdx _ _ _ => [chIdx]
  | .bundle _ chans _ => chans.map Prod.fst

variable {α : Type}

namespace Receiver

variable {r r' r'' : Receiver α} {frameTs : UInt32} {c : Channel}

/-! ### The channels of a packet -/

/-- The channel is given nothing. -/
structure Skips (r r' : Receiver α) (c : Channel) : Prop where
  submitted : r'.submitted c = r.submitted c
  last : r'.lastDecodedTs c = r.lastDecodedTs c
  queue : r'.rx.tsQueues c = r.rx.tsQueues c

/-- The channel's decoder is given a chunk of the frame. -/
structure Takes (frameTs : UInt32) (r r' : Receiver α) (c : Channel) : Prop where
  new : r.lastDecodedTs c < frameTs.toNat
  submitted : ∃ data, r'.submitted c = r.submitted c ++ [⟨frameTs, data⟩]
  last : r'.lastDecodedTs c = frameTs.toNat
  queue : (r.rx.tsQueues c).length < tsQueueCapacity →
    r'.rx.tsQueues c = r.rx.tsQueues c ++ [frameTs.toNat]

/-- What a packet of the frame may do. -/
structure Took (frameTs : UInt32) (r r' : Receiver α) : Prop where
  same : Rx.Same r.rx r'.rx
  decoders : r'.decoders = r.decoders
  channel : ∀ c, Skips r r' c ∨ Takes frameTs r r' c

theorem Skips.refl (r : Receiver α) (c : Channel) : Skips r r c := ⟨rfl, rfl, rfl⟩

theorem same_refl (s : Rx α) : Rx.Same s s := ⟨⟨rfl, rfl, rfl, rfl⟩, ⟨rfl, rfl, rfl, rfl, rfl⟩⟩

theorem Took.refl (frameTs : UInt32) (r : Receiver α) : Took frameTs r r :=
  ⟨same_refl r.rx, rfl, fun c => Or.inl (.refl r c)⟩

theorem same_trans {s s' s'' : Rx α} (h : Rx.Same s s') (h' : Rx.Same s' s'') : Rx.Same s s'' where
  ring := h'.ring.trans h.ring
  slots := h'.slots.trans h.slots
  pool := h'.pool.trans h.pool
  made := h'.made.trans h.made
  lastFlushedTs := h'.lastFlushedTs.trans h.lastFlushedTs
  posted := h'.posted.trans h.posted
  lastGoodPcm := h'.lastGoodPcm.trans h.lastGoodPcm
  graph := h.graph.trans h'.graph

/-- A channel that has taken the frame does not take it again. -/
theorem Took.trans (h : Took frameTs r r') (h' : Took frameTs r' r'') : Took frameTs r r'' := by
  refine ⟨same_trans h.same h'.same, h'.decoders.trans h.decoders, fun c => ?_⟩
  rcases h.channel c with hskip | htake
  · rcases h'.channel c with hskip' | htake'
    · exact Or.inl ⟨hskip'.submitted.trans hskip.submitted, hskip'.last.trans hskip.last,
        hskip'.queue.trans hskip.queue⟩
    · obtain ⟨hnew, hsubmitted, hlast, hqueue⟩ := htake'
      rw [hskip.last] at hnew
      rw [hskip.submitted] at hsubmitted
      rw [hskip.queue] at hqueue
      exact Or.inr ⟨hnew, hsubmitted, hlast, hqueue⟩
  · rcases h'.channel c with hskip' | htake'
    · obtain ⟨hnew, hsubmitted, hlast, hqueue⟩ := htake
      rw [← hskip'.submitted] at hsubmitted
      rw [← hskip'.queue] at hqueue
      exact Or.inr ⟨hnew, hsubmitted, hskip'.last.trans hlast, hqueue⟩
    · have hnew := htake'.new
      rw [htake.last] at hnew
      exact absurd hnew (lt_irrefl _)

theorem Took.last_le (h : Took frameTs r r') (c : Channel) :
    r.lastDecodedTs c ≤ r'.lastDecodedTs c := by
  rcases h.channel c with hskip | htake
  · exact hskip.last.ge
  · rw [htake.last]
    exact htake.new.le

theorem took_decode (r : Receiver α) (c : Channel) (frameTs : UInt32) (data : List UInt8) :
    Took frameTs r (r.decode c frameTs data) ∧
      (frameTs.toNat : ℤ) ≤ (r.decode c frameTs data).lastDecodedTs c := by
  unfold decode acceptInOrder
  by_cases hlate : (frameTs.toNat : ℤ) ≤ r.lastDecodedTs c
  · simp only [if_pos hlate, Bool.not_false, if_true]
    exact ⟨⟨same_refl _, rfl, fun _ => Or.inl ⟨rfl, rfl, rfl⟩⟩, hlate⟩
  · simp only [if_neg hlate, Bool.not_true, Bool.false_eq_true, if_false]
    refine ⟨⟨Rx.same_push frameTs.toNat, rfl, fun d => ?_⟩, ?_⟩
    case refine_2 =>
      rw [Function.update_self]
    have hqueues : ∀ d, d ≠ c →
        (r.rx.pushDecoderTimestamp c frameTs.toNat).tsQueues d = r.rx.tsQueues d := by
      intro d hd
      unfold Rx.pushDecoderTimestamp
      simp only
      rw [Function.update_of_ne hd]
      split <;> rfl
    rcases eq_or_ne d c with rfl | hd
    · refine Or.inr ⟨not_le.mp hlate, ⟨data, Function.update_self ..⟩, Function.update_self ..,
        fun hroom => ?_⟩
      have hts : frameTs.toNat % 2 ^ 32 = frameTs.toNat := Nat.mod_eq_of_lt frameTs.toNat_lt
      show (r.rx.pushDecoderTimestamp d frameTs.toNat).tsQueues d = _
      unfold Rx.pushDecoderTimestamp
      simp only
      rw [if_neg hroom.ne, if_neg hroom.ne, Function.update_self, hts]
    · exact Or.inl ⟨Function.update_of_ne hd _ _, Function.update_of_ne hd _ _, hqueues d hd⟩

/-! ### A packet -/

/-- The decoders are there, and a channel that the bundles of the current frame had
has been given that frame, or a later one. -/
structure Gated (r : Receiver α) : Prop where
  decoders : ∀ c, r.decoders c = true
  seen : ∀ c, r.rxBundleSeen c = true → r.rxBundleTs ≤ r.lastDecodedTs c

theorem gated_ready (cfg : Config α) : (ready cfg).Gated :=
  ⟨fun _ => rfl, fun _ h => (nomatch h)⟩

theorem rxBundle_decode (r : Receiver α) (c : Channel) (frameTs : UInt32) (data : List UInt8) :
    (r.decode c frameTs data).rxBundleTs = r.rxBundleTs ∧
      (r.decode c frameTs data).rxBundleSeen = r.rxBundleSeen := by
  unfold decode acceptInOrder
  split <;> exact ⟨rfl, rfl⟩

theorem Gated.decode (h : r.Gated) (c : Channel) (frameTs : UInt32) (data : List UInt8) :
    (r.decode c frameTs data).Gated := by
  obtain ⟨htook, -⟩ := took_decode r c frameTs data
  obtain ⟨hts, hseen⟩ := rxBundle_decode r c frameTs data
  refine ⟨fun d => ?_, fun d hd => ?_⟩
  · rw [htook.decoders]
    exact h.decoders d
  · rw [hseen] at hd
    rw [hts]
    exact (h.seen d hd).trans (htook.last_le d)

theorem Gated.decodeOnce (h : r.Gated) (hts : r.rxBundleTs = frameTs.toNat)
    (ch : Channel × List UInt8) :
    (r.decodeOnce frameTs ch).Gated ∧ Took frameTs r (r.decodeOnce frameTs ch) ∧
      (r.decodeOnce frameTs ch).rxBundleTs = frameTs.toNat ∧
      (frameTs.toNat : ℤ) ≤ (r.decodeOnce frameTs ch).lastDecodedTs ch.1 := by
  unfold Receiver.decodeOnce
  by_cases hseen : r.rxBundleSeen ch.1 = true
  · rw [if_pos hseen]
    exact ⟨h, .refl frameTs r, hts, hts ▸ h.seen ch.1 hseen⟩
  rw [if_neg hseen]
  simp only [h.decoders, Bool.not_true, Bool.false_eq_true, if_false]
  obtain ⟨htook, hle⟩ := took_decode
    { r with rxBundleSeen := Function.update r.rxBundleSeen ch.1 true } ch.1 frameTs ch.2
  have hmarked : Took frameTs r
      { r with rxBundleSeen := Function.update r.rxBundleSeen ch.1 true } :=
    ⟨same_refl _, rfl, fun _ => Or.inl ⟨rfl, rfl, rfl⟩⟩
  generalize hr : ({ r with rxBundleSeen := Function.update r.rxBundleSeen ch.1 true } :
    Receiver α) = r₁ at htook hle hmarked ⊢
  have hbundle := rxBundle_decode r₁ ch.1 frameTs ch.2
  have hts₁ : r₁.rxBundleTs = frameTs.toNat := by rw [← hr]; exact hts
  refine ⟨⟨fun c => ?_, fun c hc => ?_⟩, hmarked.trans htook, hbundle.1.trans hts₁, hle⟩
  · rw [htook.decoders, hmarked.decoders]
    exact h.decoders c
  · have hseen₁ : r₁.rxBundleSeen = Function.update r.rxBundleSeen ch.1 true := by rw [← hr]
    rw [hbundle.1, hts₁]
    rw [hbundle.2, hseen₁] at hc
    rcases eq_or_ne c ch.1 with rfl | hne
    · exact hle
    · rw [Function.update_of_ne hne] at hc
      rw [← hts]
      exact (h.seen c hc).trans ((hmarked.trans htook).last_le c)

/-- The loop of `_onBundle`. -/
theorem Gated.decodeAll (h : r.Gated) (hts : r.rxBundleTs = frameTs.toNat)
    (chans : List (Channel × List UInt8)) :
    (chans.foldl (Receiver.decodeOnce frameTs) r).Gated ∧
      Took frameTs r (chans.foldl (Receiver.decodeOnce frameTs) r) ∧
      ∀ c ∈ chans.map Prod.fst,
        (frameTs.toNat : ℤ) ≤ (chans.foldl (Receiver.decodeOnce frameTs) r).lastDecodedTs c := by
  induction chans generalizing r with
  | nil => exact ⟨h, .refl frameTs r, fun _ hc => (nomatch hc)⟩
  | cons ch chans ih =>
    obtain ⟨hgated, htook, hts', hle⟩ := h.decodeOnce hts ch
    obtain ⟨hgated', htook', hall⟩ := ih hgated hts'
    refine ⟨hgated', htook.trans htook', fun c hc => ?_⟩
    rcases List.mem_cons.mp hc with rfl | hc
    · exact hle.trans (htook'.last_le _)
    · exact hall c hc

/-- Counting the packet, and marking its frame for a recording. -/
theorem Gated.noted (h : r.Gated) (isRec : Bool) (frameTs : UInt32) {r₁ : Receiver α}
    (hr : (if isRec = true then
        { r with
          totalPktsRecv := r.totalPktsRecv + 1
          rx := r.rx.markRxRecording frameTs.toNat }
      else { r with totalPktsRecv := r.totalPktsRecv + 1 }) = r₁) :
    r₁.Gated ∧ Took frameTs r r₁ := by
  subst hr
  split <;>
  exact ⟨⟨h.decoders, h.seen⟩, ⟨⟨⟨rfl, rfl, rfl, rfl⟩, ⟨rfl, rfl, rfl, rfl, rfl⟩⟩, rfl,
    fun _ => Or.inl ⟨rfl, rfl, rfl⟩⟩⟩

/-- What a packet does: its frame must be later than the last one flushed, and then
each of its channels has been given that frame, or a later one. -/
structure Handled (frameTs : UInt32) (channels : List Channel) (r r' : Receiver α) : Prop where
  gated : r'.Gated
  took : Took frameTs r r'
  late : (frameTs.toNat : ℤ) ≤ r.rx.lastFlushedTs → ∀ c, Skips r r' c
  all : r.rx.lastFlushedTs < frameTs.toNat →
    ∀ c ∈ channels, (frameTs.toNat : ℤ) ≤ r'.lastDecodedTs c

theorem Gated.onBundle (h : r.Gated) (hready : r.rx.graphReady = true) (frameTs : UInt32)
    (chans : List (Channel × List UInt8)) (isRec : Bool) :
    Handled frameTs (chans.map Prod.fst) r (r.onBundle frameTs chans isRec) := by
  unfold Receiver.onBundle
  simp only [hready, Bool.not_true, Bool.false_eq_true, if_false]
  split
  case isTrue hold =>
    exact ⟨⟨h.decoders, h.seen⟩, ⟨same_refl _, rfl, fun _ => Or.inl ⟨rfl, rfl, rfl⟩⟩,
      fun _ _ => ⟨rfl, rfl, rfl⟩, fun hnew => absurd hold (not_le.mpr hnew)⟩
  case isFalse hnew =>
    have hlate : (frameTs.toNat : ℤ) ≤ r.rx.lastFlushedTs → False := hnew
    generalize hr : (if isRec = true then _ else _ : Receiver α) = r₁
    obtain ⟨hgated, hnoted⟩ := h.noted isRec frameTs hr
    clear hr
    split
    case isTrue hother =>
      -- a new frame: no channel has been seen
      have hfresh : Receiver.Gated
          { r₁ with rxBundleTs := frameTs.toNat, rxBundleSeen := fun _ => false } :=
        ⟨hgated.decoders, fun _ hc => (nomatch hc)⟩
      have hts : (frameTs.toNat : ℤ) = frameTs.toNat := rfl
      obtain ⟨hgated', htook, hall⟩ := hfresh.decodeAll hts chans
      have hreset : Took frameTs r₁
          { r₁ with rxBundleTs := frameTs.toNat, rxBundleSeen := fun _ => false } :=
        ⟨same_refl _, rfl, fun _ => Or.inl ⟨rfl, rfl, rfl⟩⟩
      exact ⟨hgated', hnoted.trans (hreset.trans htook), fun hle => (hlate hle).elim,
        fun _ => hall⟩
    case isFalse hsame =>
      obtain ⟨hgated', htook, hall⟩ := hgated.decodeAll (not_not.mp hsame) chans
      exact ⟨hgated', hnoted.trans htook, fun hle => (hlate hle).elim, fun _ => hall⟩

theorem Gated.onSingle (h : r.Gated) (hready : r.rx.graphReady = true) (c : Channel)
    (isRec : Bool) (frameTs : UInt32) (data : List UInt8) :
    Handled frameTs [c] r (r.onSingle c isRec frameTs data) := by
  unfold Receiver.onSingle
  simp only [hready, h.decoders, Bool.not_true, Bool.false_eq_true, if_false]
  split
  case isTrue hold =>
    exact ⟨⟨h.decoders, h.seen⟩, ⟨same_refl _, rfl, fun _ => Or.inl ⟨rfl, rfl, rfl⟩⟩,
      fun _ _ => ⟨rfl, rfl, rfl⟩, fun hnew => absurd hold (not_le.mpr hnew)⟩
  case isFalse hnew =>
    have hlate : (frameTs.toNat : ℤ) ≤ r.rx.lastFlushedTs → False := hnew
    generalize hr : (if isRec = true then _ else _ : Receiver α) = r₁
    obtain ⟨hgated, hnoted⟩ := h.noted isRec frameTs hr
    obtain ⟨htook, hle⟩ := took_decode r₁ c frameTs data
    refine ⟨hgated.decode c frameTs data, hnoted.trans htook, fun hle => (hlate hle).elim,
      fun _ d hd => ?_⟩
    obtain rfl := List.mem_singleton.mp hd
    exact hle

/-- **What a packet does** to a receiver that plays. -/
theorem Gated.onDcMessage (h : r.Gated) (hready : r.rx.graphReady = true) {buf : List UInt8}
    {p : Packet} (hp : readPacket buf = some p) :
    Handled p.frameTs p.channels r (r.onDcMessage buf) := by
  unfold Receiver.onDcMessage
  rw [hp]
  cases p with
  | single chIdx isRec frameTs data => exact h.onSingle hready chIdx isRec frameTs data
  | bundle frameTs chans isRec => exact h.onBundle hready frameTs chans isRec

end Receiver

end AmbiRTC.Downlink
