/-
AmbiRTC/PipelineOrder.lean

The order in which packets reach `dc.Send`.  Nothing in the code orders them: in
bundled mode order follows from the last worker sending a frame before anything
of a later frame can be sent, in legacy mode from each channel having one worker,
which pushes a packet before it encodes the channel's next one.

Main results: the packets sent in bundled mode are in frame order
(`frameOrder_step`), and in legacy mode each channel's packets are in frame order
and numbered by the frames encoded before (`channelOrder_step`).
-/
import AmbiRTC.PipelineSends

namespace AmbiRTC

namespace Pipeline

open DropOldest FanOut Runs

variable {A : Type} {K : ℕ} {cfg : Config A} {s s' : State A K}

/-! ### Bundled mode -/

/-- Packets are in frame order, and none is of a later frame than those still in use. -/
structure FrameOrder (s : State A K) : Prop where
  carried : ∀ w fr item next, (s.workers w).carrying = some (fr, item, next) →
    item.use = (s.heap fr).use ∧ ∃ groups, next = .bundle groups
  sorted : s.out.Pairwise fun a b => a.use ≤ b.use
  below : ∀ item ∈ s.out, item.use < s.uses
  ahead : ∀ item ∈ s.out, ∀ fr ∈ s.custody.line, item.use ≤ (s.heap fr).use

/-- The frame being finished is the oldest in use. -/
theorem use_le_of_finishing (hok : s.custody.Ok cfg.bundled) {w : Fin K} {fr : ℕ}
    (h : (s.workers w).finishing = some fr) {f : ℕ} (hf : f ∈ s.custody.line) :
    (s.heap fr).use ≤ (s.heap f).use := by
  obtain ⟨rest, hrest⟩ := hok.fan.head h
  have hsorted := hok.sorted
  rw [Custody.line, hrest, List.cons_append, List.cons_append, List.map_cons,
    List.pairwise_cons] at hsorted
  rw [Custody.line, hrest, List.cons_append, List.cons_append, List.mem_cons] at hf
  rcases hf with rfl | hf
  · exact le_refl _
  · exact (hsorted.1 _ (List.mem_map_of_mem hf)).le

/-- A worker that carries a bundle is finishing its frame. -/
theorem finishing_of_carrying {wk : Worker} {fr : ℕ} {item : Outgoing}
    {groups : List (List UInt8)} (h : wk.carrying = some (fr, item, .bundle groups)) :
    wk.finishing = some fr := by
  cases wk with
  | pushing f i stage next =>
    obtain ⟨rfl, h'⟩ := Prod.mk.inj (Option.some.inj h)
    obtain ⟨-, rfl⟩ := Prod.mk.inj h'
    rfl
  | _ => cases h

theorem frameOrder_initial (cfg : Config A) : FrameOrder (initial cfg : State A K) where
  carried _ _ _ _ h := by cases h
  sorted := List.Pairwise.nil
  below _ h := by cases h
  ahead _ h := by cases h

/-- **Every step in bundled mode keeps packets in frame order.** -/
theorem frameOrder_step (hbundled : cfg.bundled = true) (hok : s.Ok cfg.bundled)
    (h : FrameOrder s) (hstep : Stepped cfg s s') : FrameOrder s' := by
  obtain ⟨huses, hkeep, hline⟩ := line_step hok.1 hstep
  have hcarried : ∀ w fr item next, (s.workers w).carrying = some (fr, item, next) →
      item.use = (s'.heap fr).use ∧ ∃ groups, next = .bundle groups := by
    intro w fr item next hc
    rw [hkeep fr (Custody.mem_line.mpr (Or.inl (carrying_mem_flight hok.1 hc)))]
    exact h.carried w fr item next hc
  -- a frame that joins the line has a use newer than any packet's
  have hahead : ∀ item : Outgoing, (item.use < s.uses) →
      (∀ fr ∈ s.custody.line, item.use ≤ (s.heap fr).use) →
        ∀ fr ∈ s'.custody.line, item.use ≤ (s'.heap fr).use := by
    intro item hbelow hle fr hfr
    rcases hline fr hfr with hold | hnew
    · rw [hkeep fr hold]
      exact hle fr hold
    · rw [hnew]
      exact hbelow.le
  cases sends_step hok hstep with
  | quiet hout hcarrying hencSeq hsucceeded =>
    refine
      { carried := fun w fr item next hc => ?_
        sorted := h.sorted.sublist hout
        below := fun item hi => (h.below item (hout.subset hi)).trans_le huses
        ahead := fun item hi => hahead item (h.below item (hout.subset hi))
          (h.ahead item (hout.subset hi)) }
    rcases hcarrying w with heq | hnone
    · exact hcarried w fr item next (heq.symm.trans hc)
    · rw [hnone] at hc
      cases hc
  | marshalled w fr group groups buf hworker hout hcarrying =>
    have hfr : fr ∈ s.custody.line := Custody.mem_line.mpr (Or.inl
      (finishing_mem_flight hok.1 (w := w) (congrArg Worker.finishing hworker)))
    refine
      { carried := fun w' f item next hc => ?carried
        sorted := hout ▸ h.sorted
        below := fun item hi => ?below
        ahead := fun item hi => ?ahead }
    case carried =>
      rw [hcarrying] at hc
      split at hc
      · obtain ⟨rfl, hc'⟩ := Prod.mk.inj (Option.some.inj hc)
        obtain ⟨rfl, rfl⟩ := Prod.mk.inj hc'
        exact ⟨(hkeep fr hfr).symm, groups, rfl⟩
      · exact hcarried w' f item next hc
    case below =>
      rw [hout] at hi
      exact (h.below item hi).trans_le huses
    case ahead =>
      rw [hout] at hi
      exact hahead item (h.below item hi) (h.ahead item hi)
  | numbered w fr c cs payload buf hlegacy =>
    -- bundled mode makes no legacy packets
    rw [hbundled] at hlegacy
    cases hlegacy
  | enqueued w fr item next hworker hout hcarrying hencSeq hsucceeded =>
    -- the packet is of the oldest frame in use, and all before it are of no later one
    obtain ⟨huse, groups, rfl⟩ := h.carried w fr item _ hworker
    have hfr : fr ∈ s.custody.line :=
      Custody.mem_line.mpr (Or.inl (carrying_mem_flight hok.1 hworker))
    have hbelow : item.use < s.uses := by
      rw [huse]
      exact hok.1.use_lt fr (Or.inl hfr)
    refine
      { carried := fun w' f item' next hc => ?carried
        sorted := ?sorted
        below := fun item' hi => ?below
        ahead := fun item' hi => ?ahead }
    case carried =>
      rw [hcarrying] at hc
      split at hc
      · cases hc
      · exact hcarried w' f item' next hc
    case sorted =>
      rw [hout, List.pairwise_append]
      refine ⟨h.sorted, List.pairwise_singleton _ _, fun a ha b hb => ?_⟩
      rw [List.mem_singleton.mp hb, huse]
      exact h.ahead a ha fr hfr
    case below =>
      rw [hout] at hi
      rcases List.mem_append.mp hi with hi | hi
      · exact (h.below item' hi).trans_le huses
      · rw [List.mem_singleton.mp hi]
        exact hbelow.trans_le huses
    case ahead =>
      rw [hout] at hi
      rcases List.mem_append.mp hi with hi | hi
      · exact hahead item' (h.below item' hi) (h.ahead item' hi)
      · rw [List.mem_singleton.mp hi]
        refine hahead item hbelow fun f hf => ?_
        rw [huse]
        exact use_le_of_finishing hok.1 (finishing_of_carrying hworker) hf

/-! ### Counting successes -/

theorem successes_congr {c n : ℕ} (h : ∀ u < n, s'.succeeded c u = s.succeeded c u) :
    s'.successes c n = s.successes c n := by
  induction n with
  | zero => rfl
  | succ n ih =>
    rw [State.successes, State.successes, Nat.count_succ, Nat.count_succ, h n (Nat.lt_succ_self n)]
    exact congrArg (· + _) (ih fun u hu => h u (Nat.lt_succ_of_lt hu))

/-- Where there are no more successes the count stays. -/
theorem successes_eq {c m n : ℕ} (hmn : m ≤ n)
    (h : ∀ u, m ≤ u → s.succeeded c u = false) : s.successes c n = s.successes c m := by
  induction n, hmn using Nat.le_induction with
  | base => rfl
  | succ n hmn ih =>
    rw [State.successes, Nat.count_succ, h n hmn]
    exact ih

/-- One more success, at `u`, later than all others. -/
theorem successes_succ {c u n : ℕ} (hn : u < n) (hold : ∀ u', s.succeeded c u' = true → u' < u)
    (hnew : ∀ u', s'.succeeded c u' = if u' = u then true else s.succeeded c u') :
    s'.successes c n = s.successes c n + 1 := by
  have hnone : ∀ u', u ≤ u' → s.succeeded c u' = false := by
    intro u' hu'
    rw [← Bool.not_eq_true]
    exact fun htrue => absurd (hold u' htrue) (not_lt.mpr hu')
  have hnone' : ∀ u', u + 1 ≤ u' → s'.succeeded c u' = false := by
    intro u' hu'
    rw [hnew, if_neg (by omega)]
    exact hnone u' (Nat.le_of_succ_le hu')
  have hbefore : s'.successes c u = s.successes c u := by
    refine successes_congr fun u' hu' => ?_
    rw [hnew, if_neg hu'.ne]
  calc s'.successes c n = s'.successes c (u + 1) := successes_eq hn hnone'
    _ = s'.successes c u + 1 := by
      rw [State.successes, Nat.count_succ, hnew, if_pos rfl]
      rfl
    _ = s.successes c n + 1 := by rw [hbefore, successes_eq hn.le hnone]

/-! ### Legacy mode -/

/-- The channel of a legacy packet. -/
def Outgoing.channel (item : Outgoing) : Option ℕ := item.packet.map fun p => p.chIdx.toNat

/-- A packet of a successfully encoded channel, numbered by the successes before. -/
def Numbered (s : State A K) (item : Outgoing) : Prop :=
  ∃ p, item.packet = some p ∧ p.marshalBinary = .ok item.buf ∧
    s.succeeded p.chIdx.toNat item.use = true ∧
      p.seqNum = UInt32.ofNat (s.successes p.chIdx.toNat item.use)

/-- The packets of each channel are in frame order, and numbered. -/
structure ChannelOrder (s : State A K) : Prop where
  carried : ∀ w fr item next, (s.workers w).carrying = some (fr, item, next) →
    item.use = (s.heap fr).use ∧ Numbered s item ∧
      (∃ c ∈ channelRange K w, item.channel = some c) ∧
        ∀ item' ∈ s.out, item'.channel = item.channel → item'.use < item.use
  queued : ∀ item ∈ s.out, Numbered s item
  sorted : s.out.Pairwise fun a b => a.channel = b.channel → a.use < b.use
  counted : ∀ c n, s.uses ≤ n → s.encSeq c = UInt32.ofNat (s.successes c n)

/-- A packet stays numbered as it is while its channel has no new success before it. -/
theorem Numbered.congr {item : Outgoing} (h : Numbered s item)
    (hsame : ∀ p, item.packet = some p → s.succeeded p.chIdx.toNat item.use = true →
      ∀ u ≤ item.use, s'.succeeded p.chIdx.toNat u = s.succeeded p.chIdx.toNat u) :
    Numbered s' item := by
  obtain ⟨p, hp, hbuf, hsucceeded, hseq⟩ := h
  have hsame' := hsame p hp hsucceeded
  refine ⟨p, hp, hbuf, (hsame' _ (le_refl _)).trans hsucceeded, ?_⟩
  rw [hseq, successes_congr fun u hu => hsame' u hu.le]

theorem channelOrder_initial (cfg : Config A) : ChannelOrder (initial cfg : State A K) where
  carried _ _ _ _ h := by cases h
  queued _ h := by cases h
  sorted := List.Pairwise.nil
  counted c n _ := by
    rw [successes_eq (Nat.zero_le n) fun _ _ => rfl]
    rfl

/-- In legacy mode there is nothing to marshal at the end of a frame. -/
theorem not_bundling (hbundled : cfg.bundled = false) (h : Bundles cfg s) {w : Fin K} {fr : ℕ}
    {group : List UInt8} {groups : List (List UInt8)} :
    s.workers w ≠ .bundling fr (group :: groups) := by
  intro hworker
  have hall := h.underway w fr (group :: groups) (congrArg Worker.groups hworker)
  rw [Config.layout, hbundled] at hall
  cases (List.append_eq_nil_iff.mp hall).2

/-- A channel was encoded, if at all, in earlier uses than those it is pending in. -/
theorem succeeded_lt (hok : s.Ok cfg.bundled) {w : Fin K} {fr c : ℕ} {cs : List ℕ}
    (hworker : s.workers w = .encoding fr (c :: cs)) {u : ℕ} (hu : s.succeeded c u = true) :
    u < (s.heap fr).use := by
  have hremaining := congrArg Worker.remaining hworker
  have hfr : fr ∈ s.flight := current_mem_flight hok.1 (congrArg Worker.current hworker)
  refine hok.2.earlier u c w fr (Custody.mem_line.mpr (Or.inl hfr)) ?_ ?_
  · intro hnone
    rw [State.succeeded, show (s.log u).encoded c = none from hnone] at hu
    cases hu
  · rw [show s.progress.pending w fr = c :: cs from pendingOf_current hremaining _]
    exact List.mem_cons_self

/-- Encoding a channel makes the next packet of it. -/
theorem ChannelOrder.encode (hok : s.Ok cfg.bundled) (h : ChannelOrder s)
    (hstep : Stepped cfg s s') {w : Fin K} {fr c : ℕ} {cs : List ℕ} {payload buf : List UInt8}
    (hworker : s.workers w = .encoding fr (c :: cs))
    (hmarshal : (legacyPacket s fr c payload).marshalBinary = .ok buf) (hout : s'.out = s.out)
    (hcarrying : ∀ w', (s'.workers w').carrying = if w' = w
      then some (fr, ⟨buf, (s.heap fr).use, some (legacyPacket s fr c payload)⟩, .encode cs)
      else (s.workers w').carrying)
    (hencSeq : s'.encSeq = Function.update s.encSeq c (s.encSeq c + 1))
    (hsucceeded : ∀ c' u, s'.succeeded c' u
      = if u = (s.heap fr).use ∧ c' = c then true else s.succeeded c' u) : ChannelOrder s' := by
  obtain ⟨huses, hkeep, -⟩ := line_step hok.1 hstep
  have hfr : fr ∈ s.custody.line := Custody.mem_line.mpr
    (Or.inl (current_mem_flight hok.1 (w := w) (congrArg Worker.current hworker)))
  have hc : c ∈ channelRange K w :=
    (remaining_suffix hok (w := w) (congrArg Worker.remaining hworker)).subset List.mem_cons_self
  have hchIdx : (legacyPacket s fr c payload).chIdx.toNat = c := by
    show (UInt8.ofNat c).toNat = c
    rw [UInt8.toNat_ofNat']
    exact Nat.mod_eq_of_lt ((lt_of_mem_channelRange hc).trans (by decide))
  -- one worker owns the channel and has frames in order: all its successes are earlier
  have hearlier : ∀ u, s.succeeded c u = true → u < (s.heap fr).use :=
    fun u hu => succeeded_lt hok hworker hu
  have hnew : ∀ u, s'.succeeded c u = if u = (s.heap fr).use then true else s.succeeded c u := by
    intro u
    rw [hsucceeded]
    exact if_congr (and_iff_left rfl) rfl rfl
  have hother : ∀ c' u, c' ≠ c → s'.succeeded c' u = s.succeeded c' u := by
    intro c' u hne
    rw [hsucceeded, if_neg fun hboth => hne hboth.2]
  have hbelow : ∀ u, u < (s.heap fr).use → s'.succeeded c u = s.succeeded c u := by
    intro u hu
    rw [hnew, if_neg hu.ne]
  -- no packet made before is affected
  have hkept : ∀ item, Numbered s item → Numbered s' item := by
    intro item hitem
    refine hitem.congr fun p _ hp u hu => ?_
    by_cases hpc : p.chIdx.toNat = c
    · rw [hpc] at hp ⊢
      exact hbelow u (hu.trans_lt (hearlier _ hp))
    · exact hother _ u hpc
  refine
    { carried := fun w' f item next hcar => ?carried
      queued := fun item hi => ?queued
      sorted := hout ▸ h.sorted
      counted := fun c' n hn => ?counted }
  case carried =>
    rw [hcarrying] at hcar
    split at hcar
    next hw =>
      obtain ⟨rfl, hcar'⟩ := Prod.mk.inj (Option.some.inj hcar)
      obtain ⟨rfl, -⟩ := Prod.mk.inj hcar'
      refine ⟨(hkeep fr hfr).symm, ⟨_, rfl, hmarshal, ?_, ?_⟩, ⟨c, hw ▸ hc, ?_⟩,
        fun item' hi hchannel => ?_⟩
      · rw [hchIdx, hnew, if_pos rfl]
      · -- the counter stands at the number of successes so far, all in earlier uses
        have hlt : (s.heap fr).use < s.uses := hok.1.use_lt fr (Or.inl hfr)
        have hnone : ∀ u, (s.heap fr).use ≤ u → s.succeeded c u = false := by
          intro u hu
          rw [← Bool.not_eq_true]
          exact fun htrue => absurd (hearlier u htrue) (not_lt.mpr hu)
        have hcount := h.counted c s.uses (le_refl _)
        rw [successes_eq hlt.le hnone] at hcount
        rw [hchIdx]
        exact hcount.trans (congrArg UInt32.ofNat (successes_congr hbelow).symm)
      · exact congrArg some hchIdx
      · -- a packet of the channel made before is of an earlier success
        rw [hout] at hi
        obtain ⟨p, hp, -, hsucc, -⟩ := h.queued item' hi
        have hpc : p.chIdx.toNat = c := by
          rw [Outgoing.channel, hp] at hchannel
          exact (Option.some.inj hchannel).trans hchIdx
        rw [hpc] at hsucc
        exact hearlier _ hsucc
    next hw =>
      obtain ⟨huse, hnumbered, hchannel, hlast⟩ := h.carried w' f item next hcar
      refine ⟨?_, hkept item hnumbered, hchannel, hout ▸ hlast⟩
      rw [hkeep f (Custody.mem_line.mpr (Or.inl (carrying_mem_flight hok.1 hcar)))]
      exact huse
  case queued =>
    rw [hout] at hi
    exact hkept item (h.queued item hi)
  case counted =>
    have hn' : s.uses ≤ n := huses.trans hn
    rw [hencSeq]
    by_cases hcc : c' = c
    · rw [hcc, Function.update_self, h.counted c n hn',
        successes_succ ((hok.1.use_lt fr (Or.inl hfr)).trans_le hn') hearlier hnew,
        UInt32.ofNat_add]
      rfl
    · rw [Function.update_of_ne hcc, h.counted c' n hn',
        successes_congr fun u _ => hother c' u hcc]

/-- **Every step in legacy mode keeps each channel's packets in order and numbered.** -/
theorem channelOrder_step (hbundled : cfg.bundled = false) (hok : s.Ok cfg.bundled)
    (hbundles : Bundles cfg s) (h : ChannelOrder s) (hstep : Stepped cfg s s') :
    ChannelOrder s' := by
  obtain ⟨huses, hkeep, -⟩ := line_step hok.1 hstep
  cases sends_step hok hstep with
  -- nothing is made or queued; what is carried or queued may go
  | quiet hout hcarrying hencSeq hsucceeded =>
    have hsame := hsucceeded hbundled
    refine
      { carried := fun w fr item next hc => ?carried
        queued := fun item hi => ?queued
        sorted := h.sorted.sublist hout
        counted := fun c n hn => ?counted }
    case carried =>
      rcases hcarrying w with heq | hnone
      · have hc' := heq.symm.trans hc
        obtain ⟨huse, hnumbered, hchannel, hlast⟩ := h.carried w fr item next hc'
        refine ⟨?_, hnumbered.congr fun _ _ _ u _ => hsame _ u, hchannel,
          fun item' hi => hlast item' (hout.subset hi)⟩
        rw [hkeep fr (Custody.mem_line.mpr (Or.inl (carrying_mem_flight hok.1 hc')))]
        exact huse
      · rw [hnone] at hc
        cases hc
    case queued =>
      exact (h.queued item (hout.subset hi)).congr fun _ _ _ u _ => hsame _ u
    case counted =>
      rw [hencSeq, h.counted c n (huses.trans hn), successes_congr fun u _ => hsame c u]
  -- no bundles in the legacy format
  | marshalled w fr group groups buf hworker =>
    exact absurd hworker (not_bundling hbundled hbundles)
  | numbered w fr c cs payload buf hlegacy hworker hmarshal hout hcarrying hencSeq hsucceeded =>
    exact h.encode hok hstep hworker hmarshal hout hcarrying hencSeq hsucceeded
  -- an item goes from its worker to the end of the queue
  | enqueued w fr item next hworker hout hcarrying hencSeq hsucceeded =>
    obtain ⟨huse, hnumbered, ⟨c, hc, hchannel⟩, hlast⟩ := h.carried w fr item next hworker
    refine
      { carried := fun w' f item' next' hcar => ?carried
        queued := fun item' hi => ?queued
        sorted := ?sorted
        counted := fun c' n hn => ?counted }
    case carried =>
      rw [hcarrying] at hcar
      split at hcar
      next => cases hcar
      next hw =>
        obtain ⟨huse', hnumbered', ⟨c', hc', hchannel'⟩, hlast'⟩ := h.carried w' f item' next' hcar
        refine ⟨?_, hnumbered'.congr fun _ _ _ u _ => hsucceeded _ u, ⟨c', hc', hchannel'⟩,
          fun item'' hi hsame => ?_⟩
        · rw [hkeep f (Custody.mem_line.mpr (Or.inl (carrying_mem_flight hok.1 hcar)))]
          exact huse'
        · rw [hout] at hi
          rcases List.mem_append.mp hi with hi | hi
          · exact hlast' item'' hi hsame
          · -- two workers do not push packets of one channel
            rw [List.mem_singleton.mp hi, hchannel, hchannel'] at hsame
            obtain rfl := Option.some.inj hsame
            exact absurd (owner_unique hc' hc) hw
    case queued =>
      rw [hout] at hi
      rcases List.mem_append.mp hi with hi | hi
      · exact (h.queued item' hi).congr fun _ _ _ u _ => hsucceeded _ u
      · rw [List.mem_singleton.mp hi]
        exact hnumbered.congr fun _ _ _ u _ => hsucceeded _ u
    case sorted =>
      rw [hout, List.pairwise_append]
      refine ⟨h.sorted, List.pairwise_singleton _ _, fun a ha b hb hsame => ?_⟩
      rw [List.mem_singleton.mp hb] at hsame ⊢
      exact hlast a ha hsame
    case counted =>
      rw [hencSeq, h.counted c' n (huses.trans hn), successes_congr fun u _ => hsucceeded c' u]

end Pipeline

end AmbiRTC
