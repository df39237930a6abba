/-
AmbiRTC/DownlinkOrder.lean

The order of the downlink, and its sequence numbers.  Sequence numbers are 32
bits wide and wrap around, so that they order a channel's packets only as long as
fewer than 2^32 frames lie between them; the number they stand for, how many
frames of the channel were encoded before, orders them always.

Main results: packets are handed to `dc.Send` in frame order, in bundled mode all
of them and in legacy mode those of each channel, which are numbered modulo 2^32
(`downlink_order`); after 2^32 frames a number comes again
(`seqNum_wrapsAround`).
-/
import AmbiRTC.PipelineOrder

namespace AmbiRTC

namespace Pipeline

open DropOldest FanOut Runs

variable {A : Type} {K : ℕ}

/-- The packets handed to `dc.Send` are in order.  In bundled mode all packets of a
frame come before any of a later one; in legacy mode a channel's packets do, one
for each frame, and each has as its number how many frames of the channel were
encoded before, reduced to 32 bits, which increases strictly between wraparounds. -/
structure SentInOrder (cfg : Config A) (s : State A K) : Prop where
  frames : cfg.bundled = true → s.sent.Pairwise fun a b => a.use ≤ b.use
  channels : cfg.bundled = false → s.sent.Pairwise fun a b => ∀ c, a.channel = some c →
    b.channel = some c → a.use < b.use ∧ s.successes c a.use < s.successes c b.use
  numbers : cfg.bundled = false → ∀ item ∈ s.sent, ∃ p, item.packet = some p ∧
    p.marshalBinary = .ok item.buf ∧
      p.seqNum.toNat = s.successes p.chIdx.toNat item.use % 2 ^ 32
  increasing : cfg.bundled = false → s.sent.Pairwise fun a b => ∀ p q, a.packet = some p →
    b.packet = some q → p.chIdx = q.chIdx →
      s.successes p.chIdx.toNat a.use / 2 ^ 32 = s.successes q.chIdx.toNat b.use / 2 ^ 32 →
        p.seqNum < q.seqNum

variable {cfg : Config A} {s : State A K}

theorem sentInOrder_of_frameOrder (hbundled : cfg.bundled = true) (h : FrameOrder s) :
    SentInOrder cfg s where
  frames _ := h.sorted.sublist (List.sublist_append_left _ _)
  channels hlegacy := by
    rw [hbundled] at hlegacy
    cases hlegacy
  numbers hlegacy := by
    rw [hbundled] at hlegacy
    cases hlegacy
  increasing hlegacy := by
    rw [hbundled] at hlegacy
    cases hlegacy

/-- A channel's later packet counts the earlier one's success. -/
theorem successes_lt (h : ChannelOrder s) : s.sent.Pairwise fun a b => ∀ c,
    a.channel = some c → b.channel = some c →
      a.use < b.use ∧ s.successes c a.use < s.successes c b.use := by
  apply (h.sorted.sublist (List.sublist_append_left _ _)).imp_of_mem
  intro a b ha _ hlt c hac hbc
  have huse := hlt (hac.trans hbc.symm)
  obtain ⟨p, hp, -, hsucceeded, -⟩ := h.queued a (List.mem_append_left _ ha)
  have hpc : p.chIdx.toNat = c := by
    rw [Outgoing.channel, hp] at hac
    exact Option.some.inj hac
  rw [hpc] at hsucceeded
  exact ⟨huse, Nat.count_strict_mono hsucceeded huse⟩

theorem sentInOrder_of_channelOrder (hlegacy : cfg.bundled = false) (h : ChannelOrder s) :
    SentInOrder cfg s where
  frames hbundled := by
    rw [hlegacy] at hbundled
    cases hbundled
  channels _ := successes_lt h
  numbers _ item hi := by
    obtain ⟨p, hp, hbuf, -, hseq⟩ := h.queued item (List.mem_append_left _ hi)
    exact ⟨p, hp, hbuf, by rw [hseq, UInt32.toNat_ofNat']⟩
  increasing _ := by
    apply (successes_lt h).imp_of_mem
    intro a b ha hb hlt p q hp hq hchannel hepoch
    obtain ⟨p', hp', -, -, hpseq⟩ := h.queued a (List.mem_append_left _ ha)
    obtain ⟨q', hq', -, -, hqseq⟩ := h.queued b (List.mem_append_left _ hb)
    obtain rfl := Option.some.inj (hp.symm.trans hp')
    obtain rfl := Option.some.inj (hq.symm.trans hq')
    have hcount := (hlt p.chIdx.toNat (by rw [Outgoing.channel, hp]; rfl)
      (by rw [Outgoing.channel, hq, hchannel]; rfl)).2
    rw [UInt32.lt_iff_toNat_lt, hpseq, hqseq, UInt32.toNat_ofNat', UInt32.toNat_ofNat']
    -- the quotients by 2^32 are equal, so the remainders are ordered as the counts are
    have ha' := Nat.div_add_mod (s.successes p.chIdx.toNat a.use) (2 ^ 32)
    have hb' := Nat.div_add_mod (s.successes q.chIdx.toNat b.use) (2 ^ 32)
    rw [← hchannel] at hepoch hb' ⊢
    rw [hepoch] at ha'
    omega

/-- **Downlink order.**  In every state of every run, whatever the number of workers and
the interleaving, what was handed to `dc.Send` is in order. -/
theorem downlink_order (cfg : Config A) (hK : 0 < K) {as : List (Action A K)} {s : State A K}
    (h : Run (step cfg) (initial cfg) as s) : SentInOrder cfg s := by
  cases hmode : cfg.bundled with
  | true =>
    have hinv : s.Ok cfg.bundled ∧ FrameOrder s := by
      refine invariant_of_stepped (I := fun s => s.Ok cfg.bundled ∧ FrameOrder s) ?_ h
        ⟨ok_initial cfg, frameOrder_initial cfg⟩
      rintro s₁ s₂ ⟨hok, horder⟩ hstep
      exact ⟨ok_step hK hok hstep, frameOrder_step hmode hok horder hstep⟩
    exact sentInOrder_of_frameOrder hmode hinv.2
  | false =>
    have hinv : s.Ok cfg.bundled ∧ Bundles cfg s ∧ ChannelOrder s := by
      refine invariant_of_stepped
        (I := fun s => s.Ok cfg.bundled ∧ Bundles cfg s ∧ ChannelOrder s) ?_ h
        ⟨ok_initial cfg, bundles_initial cfg, channelOrder_initial cfg⟩
      rintro s₁ s₂ ⟨hok, hbundles, horder⟩ hstep
      exact ⟨ok_step hK hok hstep, bundles_step hK hok.1 hok.2 hbundles hstep,
        channelOrder_step hmode hok hbundles horder hstep⟩
    exact sentInOrder_of_channelOrder hmode hinv.2.2

/-! ### Sequence numbers come again -/

/-- One worker and legacy packets; the PCM of a channel is a number here. -/
def soloConfig : Config ℕ := ⟨false, 960, 0⟩

/-- The channels and numbers of packets. -/
def numbersOf (items : List Outgoing) : List (Option (UInt8 × UInt32)) :=
  items.map fun item => item.packet.map fun p => (p.chIdx, p.seqNum)

/-- The first `n` packets of channel 0. -/
def firstNumbers (n : ℕ) : List (Option (UInt8 × UInt32)) :=
  (List.range n).map fun i => some (0, UInt32.ofNat i)

theorem firstNumbers_succ (n : ℕ) :
    firstNumbers (n + 1) = firstNumbers n ++ [some (0, UInt32.ofNat n)] := by
  rw [firstNumbers, List.range_succ, List.map_append]
  rfl

/-- Where the only worker is, with the frames waiting for it and the number of packets
waiting to be sent, when `n` packets have been made. -/
structure Solo (frames : List ℕ) (wk : Worker) (waiting n : ℕ) (s : State ℕ 1) : Prop where
  mixer : s.mixer = .idle
  dispatcher : s.dispatcher = .idle
  jobs : s.jobs 0 = []
  mixCh : s.mixCh = frames
  worker : s.workers 0 = wk
  refs : ∀ fr, wk.current = some fr → (s.heap fr).refs = 1
  waiting : s.sendCh.length = waiting
  encSeq : s.encSeq 0 = UInt32.ofNat n
  out : numbersOf s.out = firstNumbers n

theorem solo_initial : Solo [] .idle 0 0 (initial soloConfig) :=
  ⟨rfl, rfl, rfl, rfl, rfl, fun _ h => (by cases h), rfl, rfl, rfl⟩

/-- `SubmitMix` gets a new frame and enqueues it. -/
theorem solo_submit {n : ℕ} {s : State ℕ 1} (h : Solo [] .idle 0 n s) :
    ∃ s', exec (step soloConfig) s [.submit (fun _ => 0) 0 false none, .fill, .pushMix] = some s' ∧
      Solo [s.allocated] .idle 0 n s' := by
  simp only [exec, step, h.mixer, acquireFrame, h.mixCh, Option.pure_def, Option.bind_eq_bind,
    Option.bind_some, State.setFrame, push, mixCap, Option.bind_fun_some, Function.update_self,
    Function.update_idem, List.length_nil, Nat.ofNat_pos, ↓reduceIte, List.nil_append,
    Option.some.injEq, exists_eq_left']
  exact ⟨rfl, h.dispatcher, h.jobs, rfl, h.worker, fun _ hfr => (by cases hfr), h.waiting,
    h.encSeq, h.out⟩

/-- The dispatcher passes it to the worker. -/
theorem solo_dispatch {n fr : ℕ} {s : State ℕ 1} (h : Solo [fr] .idle 0 n s) :
    ∃ s', exec (step soloConfig) s [.dispatch, .sendJob, .take 0] = some s' ∧
      Solo [] (.encoding fr (channelRange 1 0)) 0 n s' := by
  simp only [exec, step, h.dispatcher, h.mixCh, State.note, State.setFrame, Nat.cast_one,
    Function.update_self, Nat.lt_one_iff, jobCap, add_lt_iff_neg_right, not_lt_zero, ↓reduceIte,
    Fin.isValue, State.setWorker, Option.bind_fun_some, Option.bind_some, ↓reduceDIte, Fin.zero_eta,
    h.jobs, List.length_nil, Nat.ofNat_pos, List.nil_append, h.worker, Function.update_idem,
    Option.some.injEq, exists_eq_left']
  refine ⟨h.mixer, rfl, rfl, rfl, rfl, fun f hf => ?_, h.waiting, h.encSeq, h.out⟩
  obtain rfl := Option.some.inj hf
  exact congrArg MixFrame.refs (Function.update_self fr _ s.heap)

/-- The worker encodes channel 0 and enqueues the packet. -/
theorem solo_encode {n fr : ℕ} {cs : List ℕ} {s : State ℕ 1}
    (h : Solo [] (.encoding fr (0 :: cs)) 0 n s) :
    ∃ s', exec (step soloConfig) s [.encode 0 (some [1]), .push 0] = some s' ∧
      Solo [] (.encoding fr cs) 1 (n + 1) s' := by
  have hmask : ¬ chIdxMask < 0 := by decide
  simp only [exec, step, Fin.isValue, h.worker, soloConfig, Bool.false_eq_true, ↓reduceIte,
    Packet.marshalBinary, Packet.appendTo, legacyPacket, UInt8.reduceOfNat, gt_iff_lt, hmask,
    UInt8.zero_and, UInt8.zero_or, List.nil_append, List.cons_append, List.append_assoc,
    State.setWorker, State.note, push, sendCap, channels, Nat.reduceMul, resume,
    Option.bind_fun_some, Option.bind_some, Function.update_self, h.waiting, Nat.ofNat_pos,
    Function.update_idem, Option.isSome_none, Option.some.injEq, exists_eq_left']
  refine ⟨h.mixer, h.dispatcher, h.jobs, h.mixCh, rfl, h.refs, ?_, ?_, ?_⟩
  · rw [List.length_append, h.waiting]
    rfl
  · show Function.update s.encSeq 0 (s.encSeq 0 + 1) 0 = _
    rw [Function.update_self, h.encSeq, UInt32.ofNat_add]
    rfl
  · rw [firstNumbers_succ, ← h.out, ← h.encSeq]
    show numbersOf (s.sent ++ (s.sendCh ++ [_])) = numbersOf (s.sent ++ s.sendCh) ++ _
    rw [← List.append_assoc, numbersOf, List.map_append]
    rfl

/-- The encoder fails on the other channels. -/
theorem solo_fail {n fr : ℕ} {cs : List ℕ} {s : State ℕ 1} (h : Solo [] (.encoding fr cs) 1 n s) :
    ∃ s', exec (step soloConfig) s (List.replicate cs.length (.encode 0 none)) = some s' ∧
      Solo [] (.encoding fr []) 1 n s' := by
  induction cs generalizing s with
  | nil => exact ⟨s, rfl, h⟩
  | cons c cs ih =>
    have hnext : ∃ s', step soloConfig s (.encode 0 none) = some s' ∧
        Solo [] (.encoding fr cs) 1 n s' := by
      simp only [step, Fin.isValue, h.worker, State.setWorker, State.note, Option.some.injEq,
        exists_eq_left']
      exact ⟨h.mixer, h.dispatcher, h.jobs, h.mixCh, rfl, h.refs, h.waiting, h.encSeq, h.out⟩
    obtain ⟨s', hs', h'⟩ := hnext
    obtain ⟨s'', hs'', h''⟩ := ih h'
    exact ⟨s'', by rw [List.length_cons, List.replicate_succ, exec, hs']; exact hs'', h''⟩

/-- The frame goes back to the pool, and the packet to `dc.Send`. -/
theorem solo_finish {n fr : ℕ} {s : State ℕ 1} (h : Solo [] (.encoding fr []) 1 n s) :
    ∃ s', exec (step soloConfig) s [.finish 0, .release 0, .transmit] = some s' ∧
      Solo [] .idle 0 n s' := by
  obtain ⟨item, hitem⟩ := List.length_eq_one_iff.mp h.waiting
  have hrefs := h.refs fr rfl
  have hout := h.out
  simp only [exec, step, Fin.isValue, h.worker, State.setWorker, State.note, State.setFrame,
    hrefs, sub_self, hitem, Function.update_self, decide_true, soloConfig, Bool.and_false,
    ↓reduceIte, Bool.false_eq_true, releaseFrame, Option.bind_fun_some, Option.bind_some,
    Function.update_idem, Option.some.injEq, exists_eq_left']
  refine ⟨h.mixer, h.dispatcher, h.jobs, h.mixCh, rfl, fun _ hfr => (by cases hfr), rfl, h.encSeq,
    ?_⟩
  rw [← h.out, State.out, State.out, hitem, List.append_nil]

/-- One frame of which channel 0 is encoded and sent. -/
def oneFrame : List (Action ℕ 1) :=
  [.submit (fun _ => 0) 0 false none, .fill, .pushMix] ++ ([.dispatch, .sendJob, .take 0]
    ++ ([.encode 0 (some [1]), .push 0] ++ (List.replicate 15 (.encode 0 none)
      ++ [.finish 0, .release 0, .transmit])))

theorem solo_oneFrame {n : ℕ} {s : State ℕ 1} (h : Solo [] .idle 0 n s) :
    ∃ s', Run (step soloConfig) s oneFrame s' ∧ Solo [] .idle 0 (n + 1) s' := by
  have hrange : channelRange 1 0 = 0 :: List.range' 1 15 := by decide
  obtain ⟨s₁, hs₁, h₁⟩ := solo_submit h
  obtain ⟨s₂, hs₂, h₂⟩ := solo_dispatch h₁
  rw [hrange] at h₂
  obtain ⟨s₃, hs₃, h₃⟩ := solo_encode h₂
  obtain ⟨s₄, hs₄, h₄⟩ := solo_fail h₃
  obtain ⟨s₅, hs₅, h₅⟩ := solo_finish h₄
  rw [List.length_range'] at hs₄
  exact ⟨s₅, (Run.of_exec hs₁).append ((Run.of_exec hs₂).append ((Run.of_exec hs₃).append
    ((Run.of_exec hs₄).append (Run.of_exec hs₅)))), h₅⟩

/-- Two frames, one after the other: their packets of channel 0 are numbered 0 and 1. -/
theorem downlink_order_solo :
    ∃ s, Run (step soloConfig) (initial soloConfig) (oneFrame ++ oneFrame) s ∧
      numbersOf s.sent = [some (0, 0), some (0, 1)] ∧ SentInOrder soloConfig s := by
  have hexec : (exec (step soloConfig) (initial soloConfig) (oneFrame ++ oneFrame)).map
      (fun s => numbersOf s.sent) = some [some (0, 0), some (0, 1)] := by
    decide +kernel
  obtain ⟨s, hs, hsent⟩ := Option.map_eq_some_iff.mp hexec
  exact ⟨s, Run.of_exec hs, hsent, downlink_order soloConfig Nat.one_pos (Run.of_exec hs)⟩

/-- Any number of frames can be sent. -/
theorem solo_run (n : ℕ) :
    ∃ as s, Run (step soloConfig) (initial soloConfig) as s ∧ Solo [] .idle 0 n s := by
  induction n with
  | zero => exact ⟨[], _, .nil _, solo_initial⟩
  | succ n ih =>
    obtain ⟨as, s, hrun, h⟩ := ih
    obtain ⟨s', hrun', h'⟩ := solo_oneFrame h
    exact ⟨as ++ oneFrame, s', hrun.append hrun', h'⟩

/-- **Sequence numbers come again.**  After 2^32 frames a channel has a packet with the
number of its first one, so its numbers do not increase strictly for ever. -/
theorem seqNum_wrapsAround :
    ¬ ∀ (A : Type) (K : ℕ) (cfg : Config A) (as : List (Action A K)) (s : State A K), 0 < K →
      cfg.bundled = false → Run (step cfg) (initial cfg) as s →
        s.sent.Pairwise fun a b => ∀ p q, a.packet = some p → b.packet = some q →
          p.chIdx = q.chIdx → p.seqNum < q.seqNum := by
  intro h
  obtain ⟨as, s, hrun, hsolo⟩ := solo_run (2 ^ 32 + 1)
  have hpairwise := h ℕ 1 soloConfig as s Nat.one_pos rfl hrun
  have hout := hsolo.out
  rw [State.out, List.length_eq_zero_iff.mp hsolo.waiting, List.append_nil] at hout
  have hlength : s.sent.length = 2 ^ 32 + 1 := by
    have := congrArg List.length hout
    rwa [numbersOf, firstNumbers, List.length_map, List.length_map, List.length_range] at this
  -- packet `i` is of channel 0 and has the number `i`, reduced to 32 bits
  have hnumber : ∀ i (hi : i < s.sent.length), ∃ p, s.sent[i].packet = some p ∧ p.chIdx = 0 ∧
      p.seqNum = UInt32.ofNat i := by
    intro i hi
    have hget := congrArg (fun l => l[i]?) hout
    simp only [numbersOf, firstNumbers, List.getElem?_map, List.getElem?_eq_getElem hi,
      List.getElem?_range (hlength ▸ hi), Option.map_some, Option.some.injEq] at hget
    obtain ⟨p, hp, hpair⟩ := Option.map_eq_some_iff.mp hget
    exact ⟨p, hp, congrArg Prod.fst hpair, congrArg Prod.snd hpair⟩
  have hfirst : 0 < s.sent.length := by omega
  have hlast : 2 ^ 32 < s.sent.length := by omega
  obtain ⟨p, hp, hpc, hpn⟩ := hnumber 0 hfirst
  obtain ⟨q, hq, hqc, hqn⟩ := hnumber (2 ^ 32) hlast
  have hlt := List.pairwise_iff_getElem.mp hpairwise 0 (2 ^ 32) hfirst hlast (by decide) p q hp hq
    (hpc.trans hqc.symm)
  rw [hpn, hqn] at hlt
  exact absurd hlt (by decide)

end Pipeline

end AmbiRTC
