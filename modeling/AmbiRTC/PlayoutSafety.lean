/-
AmbiRTC/PlayoutSafety.lean

Playback over whole runs.  The frames that reach the worklet are those the receiver
has posted, each once and in order; its thresholds are those the main thread has
announced; and at most twelve frames wait in its ring, which never overflows.

Main results: `Ok.step` (one step), `playout_bounded` and `playout_faithful` (every
run).
-/
import AmbiRTC.Playout
import AmbiRTC.WorkletLatency

namespace AmbiRTC.Playout

open Runs Playback ReceiverProcessor

variable {α : Type}

/-! ### The messages on the port -/

/-- The frames among the messages. -/
def frames (messages : List (Call α)) : List (PostedFrame α) :=
  messages.filterMap fun
    | .frame f => some f
    | _ => none

/-- The prebuffer threshold after the messages. -/
def threshold (d : ℕ) (messages : List (Call α)) : ℕ :=
  messages.foldl (fun d m =>
    match m with
    | .config _ prebuffer => prebuffer.getD d
    | _ => d) d

/-- What the main thread posts when frames have `F` samples. -/
def Sane (F : ℕ) : Call α → Prop
  | .frame _ => True
  | .reanchor => True
  | .config frameSize prebuffer => (∀ n ∈ frameSize, n = F) ∧ ∀ n ∈ prebuffer, n ≤ 6 * F
  | .process _ => False

@[simp] theorem frames_append (messages messages' : List (Call α)) :
    frames (messages ++ messages') = frames messages ++ frames messages' :=
  List.filterMap_append

@[simp] theorem threshold_append (d : ℕ) (messages messages' : List (Call α)) :
    threshold d (messages ++ messages') = threshold (threshold d messages) messages' :=
  List.foldl_append

theorem frames_map_frame (ms : List (PostedFrame α)) : frames (ms.map Call.frame) = ms := by
  induction ms with
  | nil => rfl
  | cons f ms ih => rw [List.map_cons, frames, List.filterMap_cons]; exact congrArg _ ih

theorem threshold_map_frame (d : ℕ) (ms : List (PostedFrame α)) :
    threshold d (ms.map Call.frame) = d := by
  induction ms with
  | nil => rfl
  | cons f ms ih => exact ih

/-- What has been placed since the last reanchor has been posted. -/
theorem mem_frames_of_posted {messages : List (Call α)} {f : PostedFrame α}
    (hf : f ∈ posted messages) : f ∈ frames messages := by
  induction messages using List.reverseRecOn with
  | nil => cases hf
  | append_singleton messages m ih =>
    rw [posted_concat] at hf
    rw [frames_append]
    cases m with
    | frame f' =>
      rcases List.mem_append.mp hf with hf | hf
      · exact List.mem_append_left _ (ih hf)
      · exact List.mem_append_right _ hf
    | reanchor => cases hf
    | config _ _ => exact List.mem_append_left _ (ih hf)
    | process _ => exact List.mem_append_left _ (ih hf)

/-- The messages of the adaptation carry no frame, and announce the new depth. -/
theorem control_announced (p : Prebuffer.Node) {F next : ℕ} (hnext : next ≤ 6 * F) :
    frames ((p.announced next).map (control (α := α))) = [] ∧
      threshold p.dynPrebuffer ((p.announced next).map (control (α := α))) = next ∧
      ∀ m ∈ (p.announced next).map (control (α := α)), Sane F m := by
  have hconfig : Sane F (control (α := α) (.config next)) :=
    ⟨fun _ h => (nomatch h), fun n hn => Option.some.inj hn ▸ hnext⟩
  unfold Prebuffer.Node.announced
  split
  · refine ⟨rfl, rfl, fun m hm => ?_⟩
    rcases List.mem_cons.mp hm with rfl | hm
    · trivial
    · rw [List.mem_singleton.mp hm]
      exact hconfig
  split
  · refine ⟨rfl, rfl, fun m hm => ?_⟩
    rw [List.mem_singleton.mp hm]
    exact hconfig
  · refine ⟨rfl, ?_, fun m hm => (nomatch hm)⟩
    show p.dynPrebuffer = next
    omega

/-! ### What the receiver posts -/

variable {cfg : Assembly.Config α} {r sampleRate : ℕ} {bundle : Bool}

/-- The frames the receiver has posted: in order, regular, and with sixteen planes
each that were decoded or made up. -/
structure Posting (cfg : Assembly.Config α) (r : ℕ) (receiver : Assembly.State α) : Prop where
  increasing : receiver.rx.posted.Pairwise fun m m' => m.timestamp < m'.timestamp
  proper : ∀ m ∈ receiver.rx.posted, m.Proper cfg receiver.decoded receiver.earlier
  regular : ∀ m ∈ receiver.rx.posted, m.Regular cfg r

theorem posting_of_onTheGrid {receiver : Assembly.State α}
    (h : Assembly.OnTheGrid cfg r receiver) : Posting cfg r receiver :=
  ⟨h.valid.posting.increasing, h.valid.posting.planes, h.regular.posted⟩

/-- `f` begins whole frames after `g`. -/
def Follows (F : ℕ) (g f : PostedFrame α) : Prop :=
  g.timestamp + F ≤ f.timestamp ∧ F ∣ f.timestamp - g.timestamp

theorem Posting.frame_eq {receiver : Assembly.State α} (h : Posting cfg r receiver)
    {m : Assembly.Message α} (hm : m ∈ receiver.rx.posted) :
    (m.frame cfg.silence).frameSize = cfg.frameSize ∧
      ((m.frame cfg.silence).timestamp : ℤ) = m.timestamp := by
  obtain ⟨plane, hplane, -⟩ := h.proper m hm ⟨0, Nat.succ_pos 15⟩
  refine ⟨?_, Int.toNat_of_nonneg (h.regular m hm).onGrid.1⟩
  show ((m.channels _).getD []).length = _
  rw [hplane]
  exact (h.regular m hm).sized _ plane hplane

theorem Posting.frames_sized {receiver : Assembly.State α} (h : Posting cfg r receiver) :
    ∀ f ∈ receiver.rx.posted.map (·.frame cfg.silence), f.frameSize = cfg.frameSize := by
  intro f hf
  obtain ⟨m, hm, rfl⟩ := List.mem_map.mp hf
  exact (h.frame_eq hm).1

theorem Posting.frames_follow {receiver : Assembly.State α} (h : Posting cfg r receiver) :
    (receiver.rx.posted.map (·.frame cfg.silence)).Pairwise (Follows cfg.frameSize) := by
  rw [List.pairwise_map]
  refine h.increasing.imp_of_mem fun {m m'} hm hm' hlt => ?_
  have hts := (h.frame_eq hm).2
  have hts' := (h.frame_eq hm').2
  have hgrid := (h.regular m hm).onGrid.2
  have hgrid' := (h.regular m' hm').onGrid.2
  have hdvd : (cfg.frameSize : ℤ) ∣ m'.timestamp - m.timestamp :=
    Int.dvd_of_emod_eq_zero (Int.emod_eq_emod_iff_emod_sub_eq_zero.mp (hgrid'.trans hgrid.symm))
  have hfar := Int.le_of_dvd (by omega) hdvd
  refine ⟨by omega, ?_⟩
  rw [← hts, ← hts', ← Nat.cast_sub (by omega)] at hdvd
  exact_mod_cast hdvd

variable [Zero α]

/-! ### The invariant -/

/-- The worklet before its first message. -/
def Unconfigured (cfg : Assembly.Config α) (sampleRate : ℕ) (s : State α) : Prop :=
  s.taken = [] ∧ s.worklet = .new α sampleRate ∧
    ∃ port, s.port = .config (some cfg.frameSize) (some (2 * cfg.frameSize)) :: port

/-- What holds of the playback path. -/
structure Ok (cfg : Assembly.Config α) (r sampleRate : ℕ) (bundle : Bool) (s : State α) :
    Prop where
  receiving : s.destroyed = false → Assembly.OnTheGrid cfg r s.receiver
  posting : Posting cfg r s.receiver
  fitted : Prebuffer.Node.Fitted bundle s.prebuf
  frameSize_eq : s.prebuf.frameSize = cfg.frameSize
  through : frames (s.taken ++ s.port) = s.receiver.rx.posted.map (·.frame cfg.silence)
  sane : ∀ m ∈ s.taken ++ s.port, Sane cfg.frameSize m
  announced : threshold (ReceiverProcessor.new α sampleRate).prebuffer (s.taken ++ s.port)
    = s.prebuf.dynPrebuffer
  prebuffer_eq : s.worklet.prebuffer
    = threshold (ReceiverProcessor.new α sampleRate).prebuffer s.taken
  pace : Unconfigured cfg sampleRate s ∨
    Paced cfg.frameSize (sampleRate * BUF_SECONDS) (posted s.taken) s.worklet

variable {s s' : State α}

theorem ok_start (hpos : 0 < cfg.frameSize) :
    Ok cfg r sampleRate bundle (start cfg sampleRate) := by
  have hgrid : Assembly.OnTheGrid cfg r (start cfg sampleRate).receiver := by
    have hnew := Assembly.onTheGrid_start cfg r
    refine ⟨?_, ?_, hnew.queued⟩
    · exact Assembly.valid_step (a := .graph false true) hnew.valid rfl
    · have h := hnew.regular
      exact ⟨h.slotSizes, h.onGrid, h.sized, h.kept, h.posted⟩
  refine
    { receiving := fun _ => hgrid
      posting := posting_of_onTheGrid hgrid
      fitted := Prebuffer.Node.fitted_new bundle hpos
      frameSize_eq := rfl
      through := rfl
      sane := ?_
      announced := rfl
      prebuffer_eq := rfl
      pace := Or.inl ⟨rfl, rfl, [], rfl⟩ }
  intro m hm
  obtain rfl := List.mem_singleton.mp hm
  refine ⟨fun n hn => (Option.some.inj hn).symm, fun n hn => ?_⟩
  obtain rfl := Option.some.inj hn
  show 2 * cfg.frameSize ≤ 6 * cfg.frameSize
  omega

/-- More is posted to the worklet. -/
theorem Unconfigured.posts (h : Unconfigured cfg sampleRate s) (htaken : s'.taken = s.taken)
    (hworklet : s'.worklet = s.worklet) {messages : List (Call α)}
    (hport : s'.port = s.port ++ messages) : Unconfigured cfg sampleRate s' := by
  obtain ⟨hnil, hnew, port, hfirst⟩ := h
  exact ⟨htaken ▸ hnil, hworklet ▸ hnew, port ++ messages, by rw [hport, hfirst]; rfl⟩

/-- **The main thread posts messages**, which the worklet has not seen yet. -/
theorem Ok.posts (h : Ok cfg r sampleRate bundle s) (messages : List (Call α))
    (hreceiving : s'.destroyed = false → Assembly.OnTheGrid cfg r s'.receiver)
    (hposting : Posting cfg r s'.receiver) (hfitted : Prebuffer.Node.Fitted bundle s'.prebuf)
    (hframeSize : s'.prebuf.frameSize = s.prebuf.frameSize)
    (hworklet : s'.worklet = s.worklet) (htaken : s'.taken = s.taken)
    (hport : s'.port = s.port ++ messages)
    (hframes : s'.receiver.rx.posted.map (·.frame cfg.silence)
      = s.receiver.rx.posted.map (·.frame cfg.silence) ++ frames messages)
    (hthreshold : s'.prebuf.dynPrebuffer = threshold s.prebuf.dynPrebuffer messages)
    (hsane : ∀ m ∈ messages, Sane cfg.frameSize m) : Ok cfg r sampleRate bundle s' where
  receiving := hreceiving
  posting := hposting
  fitted := hfitted
  frameSize_eq := hframeSize.trans h.frameSize_eq
  through := by
    rw [htaken, hport, ← List.append_assoc, frames_append, h.through, hframes]
  sane m hm := by
    rw [htaken, hport, ← List.append_assoc] at hm
    exact (List.mem_append.mp hm).elim (h.sane m) (hsane m)
  announced := by
    rw [htaken, hport, ← List.append_assoc, threshold_append, h.announced, hthreshold]
  prebuffer_eq := by
    rw [hworklet, htaken]
    exact h.prebuffer_eq
  pace := h.pace.imp (fun hun => hun.posts htaken hworklet hport) (by
    rw [hworklet, htaken]
    exact id)

/-! ### The main thread -/

theorem Ok.receive (h : Ok cfg r sampleRate bundle s) {a : Assembly.Action α}
    (hkeeps : Assembly.Keeps cfg r a) (hstep : step cfg bundle s (.receive a) = some s') :
    Ok cfg r sampleRate bundle s' := by
  simp only [step] at hstep
  split at hstep
  · cases hstep
  · rename_i hguard
    rw [Bool.or_eq_true, not_or, Bool.not_eq_true, Bool.not_eq_true', Bool.not_eq_false] at hguard
    obtain ⟨halive, hreceives⟩ := hguard
    obtain ⟨receiver, hreceiver, rfl⟩ := Option.map_eq_some_iff.mp hstep
    have hgrid := h.receiving halive
    have hgrid' := hgrid.step hkeeps hreceives hreceiver
    have hold := List.prefix_iff_eq_append.mp
      (Assembly.posted_prefix hgrid.valid.tidy hreceives hreceiver)
    have hmap : ∀ ms : List (Assembly.Message α), ms.map (fun m => Call.frame (m.frame cfg.silence))
        = (ms.map (·.frame cfg.silence)).map Call.frame := fun ms => List.map_map.symm
    refine h.posts _ (fun _ => hgrid') (posting_of_onTheGrid hgrid') h.fitted rfl rfl rfl rfl
      ?_ ?_ ?_
    · rw [hmap, frames_map_frame, ← List.map_append]
      exact congrArg _ hold.symm
    · rw [hmap, threshold_map_frame]
      rfl
    · intro m hm
      obtain ⟨_, -, rfl⟩ := List.mem_map.mp hm
      trivial

theorem Ok.ready (h : Ok cfg r sampleRate bundle s)
    (hstep : step cfg bundle s .ready = some s') : Ok cfg r sampleRate bundle s' := by
  simp only [step] at hstep
  split at hstep
  · cases hstep
  · obtain rfl := Option.some.inj hstep
    refine h.posts [] (fun halive => ?_) ⟨h.posting.1, h.posting.2, h.posting.3⟩
      ⟨h.fitted.hold, rfl, h.fitted.least, h.fitted.most⟩ rfl rfl rfl (List.append_nil _).symm
      (List.append_nil _).symm rfl fun _ hm => (nomatch hm)
    have hgrid := h.receiving halive
    have hgraph : Assembly.step cfg s.receiver (.graph true s.receiver.rx.playbackWorklet)
        = some { s.receiver with rx := { s.receiver.rx with graphReady := true } } := rfl
    have hvalid := Assembly.valid_step hgrid.valid hgraph
    have hregular := hgrid.regular
    exact ⟨hvalid, ⟨hregular.slotSizes, hregular.onGrid, hregular.sized, hregular.kept,
      hregular.posted⟩, hgrid.queued⟩

theorem Ok.startAudio (h : Ok cfg r sampleRate bundle s)
    (hstep : step cfg bundle s .startAudio = some s') : Ok cfg r sampleRate bundle s' := by
  simp only [step] at hstep
  split at hstep
  · cases hstep
  · obtain rfl := Option.some.inj hstep
    refine h.posts _ h.receiving h.posting h.fitted rfl rfl rfl rfl (List.append_nil _).symm rfl ?_
    intro m hm
    obtain rfl := List.mem_singleton.mp hm
    trivial

theorem Ok.window (h : Ok cfg r sampleRate bundle s) {jitterSm : ℕ}
    (hstep : step cfg bundle s (.window jitterSm) = some s') : Ok cfg r sampleRate bundle s' := by
  simp only [step] at hstep
  split at hstep
  · cases hstep
  split at hstep
  · obtain rfl := Option.some.inj hstep
    exact h
  · obtain rfl := Option.some.inj hstep
    have hmost := (h.fitted.next_bounds jitterSm).2
    unfold Prebuffer.Node.mostDepth at hmost
    rw [h.frameSize_eq] at hmost
    obtain ⟨hframes, hthreshold, hsane⟩ := control_announced (α := α) s.prebuf hmost
    have hfitted := h.fitted.window jitterSm
    rw [h.fitted.window_eq jitterSm] at hfitted ⊢
    exact h.posts _ h.receiving h.posting hfitted rfl rfl rfl rfl
      (by rw [hframes, List.append_nil]) hthreshold.symm hsane

omit [Zero α] in
theorem posted_reset (cfg : Assembly.Config α) (rx : Assembly.Rx α) :
    (rx.resetRxAssembly cfg).posted = rx.posted := by
  have hcells : ∀ (cells : List ℕ) (rx : Assembly.Rx α),
      (cells.foldl (fun rx i => rx.resetCell cfg i) rx).posted = rx.posted := by
    intro cells
    induction cells with
    | nil => exact fun _ => rfl
    | cons i cells ih =>
      intro rx
      rw [List.foldl_cons, ih]
      unfold Assembly.Rx.resetCell
      split
      · exact Assembly.Rx.posted_release
      · rfl
  exact hcells _ rx

theorem Ok.destroy (h : Ok cfg r sampleRate bundle s)
    (hstep : step cfg bundle s .destroy = some s') : Ok cfg r sampleRate bundle s' := by
  simp only [step] at hstep
  split at hstep
  · cases hstep
  · obtain rfl := Option.some.inj hstep
    have hposted := posted_reset cfg s.receiver.rx
    have hposting : Posting cfg r { s.receiver with rx := { s.receiver.rx.resetRxAssembly cfg with
        graphReady := false, playbackWorklet := false, rxRecActive := false, rxRecFrames := []
        rxRecSet := [], rxRecTimer := false } } :=
      ⟨hposted.symm ▸ h.posting.1, hposted.symm ▸ h.posting.2, hposted.symm ▸ h.posting.3⟩
    refine h.posts [] (fun halive => (nomatch halive)) hposting
      ⟨h.fitted.hold, ?_, h.fitted.least, h.fitted.most⟩ rfl rfl rfl (List.append_nil _).symm ?_ rfl
      fun _ hm => (nomatch hm)
    · exact congrArg (fun p : Prebuffer.Node => { p with underrunCount := 0 }) h.fitted.timeout
    · show (s.receiver.rx.resetRxAssembly cfg).posted.map _ = _
      rw [hposted]
      exact (List.append_nil _).symm

theorem Ok.notice (h : Ok cfg r sampleRate bundle s)
    (hstep : step cfg bundle s .notice = some s') : Ok cfg r sampleRate bundle s' := by
  simp only [step] at hstep
  split at hstep
  · cases hstep
  · rename_i n notices _
    obtain rfl := Option.some.inj hstep
    have hnotice : Prebuffer.Node.Fitted bundle (onNotice s.prebuf n) ∧
        (onNotice s.prebuf n).frameSize = s.prebuf.frameSize ∧
        (onNotice s.prebuf n).dynPrebuffer = s.prebuf.dynPrebuffer := by
      cases n with
      | underrun => exact ⟨h.fitted.onUnderrun, rfl, rfl⟩
      | recycle _ => exact ⟨h.fitted, rfl, rfl⟩
      | depth _ => exact ⟨h.fitted, rfl, rfl⟩
    exact h.posts [] h.receiving h.posting hnotice.1 hnotice.2.1 rfl rfl
      (List.append_nil _).symm (List.append_nil _).symm hnotice.2.2 fun _ hm => (nomatch hm)

/-! ### The audio thread -/

/-- The next frame on the port begins after all that the worklet has taken. -/
theorem Ok.next_frame (h : Ok cfg r sampleRate bundle s) {f : PostedFrame α}
    {port : List (Call α)} (hport : s.port = .frame f :: port) :
    f.frameSize = cfg.frameSize ∧
      ∀ g ∈ frames s.taken, g.frameSize = cfg.frameSize ∧ Follows cfg.frameSize g f := by
  have hthrough := h.through
  rw [hport, frames_append, show frames (.frame f :: port) = f :: frames port from rfl] at hthrough
  have hsized := h.posting.frames_sized
  have hfollow := h.posting.frames_follow
  rw [← hthrough] at hsized hfollow
  refine ⟨hsized f (List.mem_append_right _ List.mem_cons_self), fun g hg => ?_⟩
  exact ⟨hsized g (List.mem_append_left _ hg),
    (List.pairwise_append.mp hfollow).2.2 g hg f List.mem_cons_self⟩

/-- The next message is one the worklet allows. -/
theorem Ok.allows (h : Ok cfg r sampleRate bundle s) {m : Call α} {port : List (Call α)}
    (hport : s.port = m :: port) : Allows cfg.frameSize (posted s.taken) m := by
  have hsane := h.sane m (by rw [hport]; exact List.mem_append_right _ List.mem_cons_self)
  cases m with
  | frame f =>
    obtain ⟨hsize, hbefore⟩ := h.next_frame hport
    refine ⟨hsize, fun g hg => ?_⟩
    obtain ⟨hg, hfollow, -⟩ := hbefore g (mem_frames_of_posted hg)
    omega
  | reanchor => trivial
  | config frameSize prebuffer => exact hsane
  | process out => trivial

/-- After its first message the worklet has the thresholds of the main thread. -/
theorem paced_configured (sampleRate F : ℕ) :
    ((ReceiverProcessor.new α sampleRate).config (some F) (some (2 * F))).prebuffer = 2 * F ∧
      Paced F (sampleRate * BUF_SECONDS) []
        ((ReceiverProcessor.new α sampleRate).config (some F) (some (2 * F))) := by
  have hfresh := fresh_config_new α sampleRate (some F) (some (2 * F))
  have hsizes : ((ReceiverProcessor.new α sampleRate).config (some F) (some (2 * F))).bufLen
        = sampleRate * BUF_SECONDS ∧
      ((ReceiverProcessor.new α sampleRate).config (some F) (some (2 * F))).frameSize = F ∧
      ((ReceiverProcessor.new α sampleRate).config (some F) (some (2 * F))).prebuffer = 2 * F := by
    by_cases hF : F = (ReceiverProcessor.new α sampleRate).frameSize
    · rw [config_of_eq fun n hn => (Option.some.inj hn).symm.trans hF]
      exact ⟨rfl, hF.symm, rfl⟩
    · unfold ReceiverProcessor.config
      simp only [Option.any_some, ne_eq, hF, not_false_eq_true, decide_true, if_true]
      exact ⟨rfl, rfl, rfl⟩
  obtain ⟨hbufLen, hframeSize, hprebuffer⟩ := hsizes
  exact ⟨hprebuffer, paced_of_fresh hfresh hbufLen hframeSize (by omega)⟩

/-- **The worklet handles the next message.** -/
theorem Ok.handles (h : Ok cfg r sampleRate bundle s)
    (hroom : 13 * cfg.frameSize < sampleRate * BUF_SECONDS) {m : Call α} {port : List (Call α)}
    (hport : s.port = m :: port) :
    ∃ w' posts, handle s.worklet m = some (w', posts) ∧
      w'.prebuffer = threshold s.worklet.prebuffer [m] ∧
      Paced cfg.frameSize (sampleRate * BUF_SECONDS) (posted (s.taken ++ [m])) w' := by
  have hallows := h.allows hport
  have hsane := h.sane m (by rw [hport]; exact List.mem_append_right _ List.mem_cons_self)
  rw [posted_concat]
  rcases h.pace with ⟨hnil, hnew, port', hfirst⟩ | hpaced
  · obtain ⟨rfl, -⟩ := List.cons.inj (hport.symm.trans hfirst)
    rw [hnil, hnew]
    obtain ⟨hprebuffer, hpaced⟩ := paced_configured (α := α) sampleRate cfg.frameSize
    exact ⟨_, _, rfl, hprebuffer, hpaced⟩
  · cases m with
    | frame f =>
      obtain ⟨w', hw', hprebuffer, hpaced'⟩ := hpaced.frame hroom hallows
      exact ⟨w', _, hw', hprebuffer, hpaced'⟩
    | reanchor => exact ⟨_, _, rfl, rfl, hpaced.reanchor⟩
    | config frameSize prebuffer =>
      refine ⟨_, _, rfl, ?_, hpaced.config hallows⟩
      rw [config_of_eq fun n hn => (hsane.1 n hn).trans hpaced.frameSize_eq.symm]
      rfl
    | process out => cases hsane

theorem Ok.deliver (h : Ok cfg r sampleRate bundle s)
    (hroom : 13 * cfg.frameSize < sampleRate * BUF_SECONDS)
    (hstep : step cfg bundle s .deliver = some s') : Ok cfg r sampleRate bundle s' := by
  simp only [step] at hstep
  split at hstep
  · cases hstep
  · rename_i m port hport
    obtain ⟨w', posts, hw', hprebuffer, hpaced⟩ := h.handles hroom hport
    rw [hw'] at hstep
    obtain rfl := Option.some.inj hstep
    have hmoved : s.taken ++ [m] ++ port = s.taken ++ s.port := by
      rw [hport, List.append_assoc]
      rfl
    refine ⟨h.receiving, h.posting, h.fitted, h.frameSize_eq, ?_, ?_, ?_, ?_, Or.inr hpaced⟩
    · rw [hmoved]
      exact h.through
    · rw [hmoved]
      exact h.sane
    · rw [hmoved]
      exact h.announced
    · rw [threshold_append, ← h.prebuffer_eq]
      exact hprebuffer

/-- **The worklet renders a block**, whenever it is asked for one. -/
theorem Ok.renders (h : Ok cfg r sampleRate bundle s)
    (hroom : 13 * cfg.frameSize < sampleRate * BUF_SECONDS) (block : List α)
    (rest : List (List α)) :
    ∃ w' out' posts, s.worklet.process (block :: rest) = some (w', out', posts) ∧
      w'.prebuffer = s.worklet.prebuffer ∧ (w' = s.worklet ∨
        Paced cfg.frameSize (sampleRate * BUF_SECONDS) (posted s.taken) w') := by
  rcases h.pace with ⟨-, hnew, -⟩ | hpaced
  · rw [hnew]
    exact ⟨_, _, _, rfl, rfl, Or.inl rfl⟩
  · obtain ⟨w', out', posts, hw', hprebuffer, hpaced'⟩ := hpaced.block hroom block rest
    exact ⟨w', out', posts, hw', hprebuffer, Or.inr hpaced'⟩

theorem Ok.block (h : Ok cfg r sampleRate bundle s)
    (hroom : 13 * cfg.frameSize < sampleRate * BUF_SECONDS) {out : List (List α)}
    (hstep : step cfg bundle s (.block out) = some s') : Ok cfg r sampleRate bundle s' := by
  rcases out with - | ⟨block, rest⟩
  · cases hstep
  · obtain ⟨w', out', posts, hw', hprebuffer, hpaced⟩ := h.renders hroom block rest
    simp only [step, hw'] at hstep
    obtain rfl := Option.some.inj hstep
    refine ⟨h.receiving, h.posting, h.fitted, h.frameSize_eq, h.through, h.sane, h.announced,
      hprebuffer.trans h.prebuffer_eq, ?_⟩
    rcases hpaced with rfl | hpaced
    · exact h.pace
    · exact Or.inr hpaced

/-! ### Every run -/

/-- What the decoders and the network keep to. -/
def Keeps (cfg : Assembly.Config α) (r : ℕ) : Action α → Prop
  | .receive a => Assembly.Keeps cfg r a
  | _ => True

/-- **One step of either thread.** -/
theorem Ok.step {a : Action α} (h : Ok cfg r sampleRate bundle s)
    (hroom : 13 * cfg.frameSize < sampleRate * BUF_SECONDS) (hkeeps : Keeps cfg r a)
    (hstep : Playout.step cfg bundle s a = some s') : Ok cfg r sampleRate bundle s' := by
  cases a with
  | receive a => exact h.receive hkeeps hstep
  | ready => exact h.ready hstep
  | startAudio => exact h.startAudio hstep
  | window jitterSm => exact h.window hstep
  | deliver => exact h.deliver hroom hstep
  | block out => exact h.block hroom hstep
  | notice => exact h.notice hstep
  | destroy => exact h.destroy hstep

/-- What holds at any moment.  Frames reach the worklet each once and in the order
posted; it lags at most twelve frames behind; after the messages on their way it has
the threshold of the main thread; and neither a message nor a block is refused. -/
structure Bounded (cfg : Assembly.Config α) (bundle : Bool) (s : State α) : Prop where
  increasing : s.receiver.rx.posted.Pairwise fun m m' => m.timestamp < m'.timestamp
  proper : ∀ m ∈ s.receiver.rx.posted, m.Proper cfg s.receiver.decoded s.receiver.earlier
  through : frames s.taken ++ frames s.port = s.receiver.rx.posted.map (·.frame cfg.silence)
  nonneg : s.worklet.readTs ≤ s.worklet.writeTs
  lag : s.worklet.writeTs - s.worklet.readTs ≤ 12 * cfg.frameSize
  announced : threshold s.worklet.prebuffer s.port = s.prebuf.dynPrebuffer
  depth_le : s.prebuf.dynPrebuffer ≤ 6 * cfg.frameSize
  delivers : s.port ≠ [] → ∃ s', step cfg bundle s .deliver = some s'
  renders : ∀ block rest, ∃ s', step cfg bundle s (.block (block :: rest)) = some s'

theorem Ok.bounded (h : Ok cfg r sampleRate bundle s)
    (hroom : 13 * cfg.frameSize < sampleRate * BUF_SECONDS) : Bounded cfg bundle s where
  increasing := h.posting.increasing
  proper := h.posting.proper
  through := by rw [← frames_append, h.through]
  nonneg := by
    rcases h.pace with ⟨-, hnew, -⟩ | hpaced
    · rw [hnew]
      exact le_refl _
    · exact hpaced.readTs_le
  lag := by
    rcases h.pace with ⟨-, hnew, -⟩ | hpaced
    · rw [hnew]
      show (0 : ℤ) - 0 ≤ 12 * cfg.frameSize
      omega
    · exact hpaced.depth
  announced := by rw [h.prebuffer_eq, ← threshold_append, h.announced]
  depth_le := by
    have hmost := h.fitted.most
    unfold Prebuffer.Node.mostDepth at hmost
    rwa [h.frameSize_eq] at hmost
  delivers hne := by
    obtain ⟨m, port, hport⟩ := List.exists_cons_of_ne_nil hne
    obtain ⟨w', posts, hw', -⟩ := h.handles hroom hport
    exact Option.isSome_iff_exists.mp (by simp [Playout.step, hport, hw'])
  renders block rest := by
    obtain ⟨w', out', posts, hw', -⟩ := h.renders hroom block rest
    exact Option.isSome_iff_exists.mp (by simp [Playout.step, hw'])

/-- **Playback lags by a bounded depth, and loses nothing on the way**, for frames of a
thirteenth of the ring or less: whatever the network, the decoders and the two threads
do, and however often the prebuffer is adapted. -/
theorem playout_bounded (hpos : 0 < cfg.frameSize)
    (hroom : 13 * cfg.frameSize < sampleRate * BUF_SECONDS) {as : List (Action α)}
    (hkeeps : ∀ a ∈ as, Keeps cfg r a) :
    Throughout (step cfg bundle) (Bounded cfg bundle) (start cfg sampleRate) as := by
  rintro as₁ as₂ s rfl hrun
  refine Ok.bounded (r := r) (hrun.invariant_of_along (P := fun _ a => Keeps cfg r a)
    (fun s a s' h ha hstep => h.step hroom ha hstep) ?_ (ok_start hpos)) hroom
  rintro bs₁ b bs₂ - rfl -
  exact hkeeps b (by simp)

/-! ### What is heard -/

/-- The worklet at its first message: what its runs are counted from. -/
def configured (cfg : Assembly.Config α) (sampleRate : ℕ) : ReceiverProcessor α :=
  (ReceiverProcessor.new α sampleRate).config (some cfg.frameSize) (some (2 * cfg.frameSize))

/-- The next message is a frame that leaves an audible sample behind. -/
def StrandsNext (s : State α) : Prop :=
  ∃ f port, s.port = .frame f :: port ∧ s.worklet.Strands (.frame f)

/-- The ring is in step with the frames taken. -/
def InTime (cfg : Assembly.Config α) (sampleRate : ℕ) (s : State α) : Prop :=
  Unconfigured cfg sampleRate s ∨
    Tracks (configured cfg sampleRate) (posted s.taken) s.worklet

theorem configured_sizes (cfg : Assembly.Config α) (sampleRate : ℕ) :
    (configured cfg sampleRate).bufLen = sampleRate * BUF_SECONDS ∧
      (configured cfg sampleRate).frameSize = cfg.frameSize := by
  obtain ⟨-, hpaced⟩ := paced_configured (α := α) sampleRate cfg.frameSize
  exact ⟨hpaced.bufLen_eq, hpaced.frameSize_eq⟩

/-- The next message is admitted. -/
theorem Ok.admits (h : Ok cfg r sampleRate bundle s) (hpos : 0 < cfg.frameSize)
    (hroom : 13 * cfg.frameSize < sampleRate * BUF_SECONDS) {m : Call α} {port : List (Call α)}
    (hport : s.port = m :: port) : Admits (configured cfg sampleRate) (posted s.taken) m := by
  obtain ⟨hbufLen, hframeSize⟩ := configured_sizes cfg sampleRate
  have hsane := h.sane m (by rw [hport]; exact List.mem_append_right _ List.mem_cons_self)
  cases m with
  | frame f =>
    obtain ⟨hsize, hbefore⟩ := h.next_frame hport
    refine ⟨hsize.trans hframeSize.symm, fun g hg => ?_⟩
    obtain ⟨-, hafter, hdvd⟩ := hbefore g (mem_frames_of_posted hg)
    exact ⟨by omega, hframeSize.symm ▸ hdvd⟩
  | reanchor => trivial
  | config frameSize prebuffer =>
    refine ⟨fun n hn => (hsane.1 n hn).trans hframeSize.symm, fun n hn => ?_⟩
    have := hsane.2 n hn
    rw [hframeSize, hbufLen]
    omega
  | process out => cases hsane

theorem handle_fst (w : ReceiverProcessor α) (m : Call α) :
    (handle w m).map Prod.fst = call w m := by
  cases m with
  | frame f => rfl
  | reanchor => rfl
  | config frameSize prebuffer => rfl
  | process out =>
    show ((w.process out).map _).map _ = (w.process out).map _
    rw [Option.map_map]
    rfl

/-- **One step keeps the ring in step**, unless it strands a sample. -/
theorem InTime.step {a : Action α} (hin : InTime cfg sampleRate s)
    (h : Ok cfg r sampleRate bundle s) (hpos : 0 < cfg.frameSize)
    (hroom : 13 * cfg.frameSize < sampleRate * BUF_SECONDS)
    (hno : a = .deliver → ¬StrandsNext s) (hstep : Playout.step cfg bundle s a = some s') :
    InTime cfg sampleRate s' := by
  -- what leaves the worklet alone and only adds to the port
  have hidle : ∀ s'' : State α, s''.taken = s.taken → s''.worklet = s.worklet →
      (∃ messages, s''.port = s.port ++ messages) → InTime cfg sampleRate s'' := by
    rintro s'' htaken hworklet ⟨messages, hport⟩
    refine hin.imp (fun hun => hun.posts htaken hworklet hport) ?_
    rw [htaken, hworklet]
    exact id
  cases a with
  | receive a =>
    simp only [Playout.step] at hstep
    split at hstep
    · cases hstep
    · obtain ⟨receiver, -, rfl⟩ := Option.map_eq_some_iff.mp hstep
      exact hidle _ rfl rfl ⟨_, rfl⟩
  | ready | destroy =>
    simp only [Playout.step] at hstep
    split at hstep
    · cases hstep
    · obtain rfl := Option.some.inj hstep
      exact hidle _ rfl rfl ⟨[], (List.append_nil _).symm⟩
  | startAudio =>
    simp only [Playout.step] at hstep
    split at hstep
    · cases hstep
    · obtain rfl := Option.some.inj hstep
      exact hidle _ rfl rfl ⟨_, rfl⟩
  | window jitterSm =>
    simp only [Playout.step] at hstep
    split at hstep
    · cases hstep
    split at hstep
    · obtain rfl := Option.some.inj hstep
      exact hin
    · obtain rfl := Option.some.inj hstep
      exact hidle _ rfl rfl ⟨_, rfl⟩
  | notice =>
    simp only [Playout.step] at hstep
    split at hstep
    · cases hstep
    · obtain rfl := Option.some.inj hstep
      exact hidle _ rfl rfl ⟨[], (List.append_nil _).symm⟩
  | deliver =>
    simp only [Playout.step] at hstep
    split at hstep
    · cases hstep
    · rename_i m port hport
      obtain ⟨⟨w', posts⟩, hw', rfl⟩ := Option.map_eq_some_iff.mp hstep
      refine Or.inr ?_
      show Tracks _ (posted (s.taken ++ [m])) w'
      rw [posted_concat]
      rcases hin with ⟨hnil, hnew, port', hfirst⟩ | htracks
      -- the first message: the worklet is configured, and its ring is empty
      · obtain ⟨rfl, -⟩ := List.cons.inj (hport.symm.trans hfirst)
        rw [hnew] at hw'
        obtain ⟨hw', -⟩ := Prod.mk.inj (Option.some.inj hw')
        obtain ⟨hbufLen, hframeSize⟩ := configured_sizes cfg sampleRate
        have hprebuffer := (paced_configured (α := α) sampleRate cfg.frameSize).1
        rw [hnil, ← hw']
        refine tracks_of_fresh (fresh_config_new α sampleRate _ _) ?_ rfl rfl
        show (configured cfg sampleRate).prebuffer + _ < _
        rw [show (configured cfg sampleRate).prebuffer = 2 * cfg.frameSize from hprebuffer]
        show 2 * cfg.frameSize + 7 * (configured cfg sampleRate).frameSize
          < (configured cfg sampleRate).bufLen
        omega
      -- a configured worklet: one call of it, and the frame strands nothing
      · have hcall : call s.worklet m = some w' := by
          rw [← handle_fst, hw']
          rfl
        refine htracks.call (h.admits hpos hroom hport) ?_ hcall
        cases m with
        | frame f => exact fun hstrands => hno rfl ⟨f, port, hport, hstrands⟩
        | reanchor | config _ _ | process _ => exact id
  | block out =>
    obtain ⟨⟨w', out', posts⟩, hw', rfl⟩ := Option.map_eq_some_iff.mp hstep
    rcases hin with ⟨hnil, hnew, hfirst⟩ | htracks
    -- not configured yet: a block leaves the worklet as it is
    · rcases out with - | ⟨block, rest⟩
      · cases hw'
      · rw [hnew] at hw'
        obtain ⟨hw', -⟩ := Prod.mk.inj (Option.some.inj hw')
        exact Or.inl ⟨hnil, hw'.symm, hfirst⟩
    · refine Or.inr (htracks.call (a := .process out) trivial id ?_)
      show (s.worklet.process out).map Prod.fst = some w'
      rw [hw']
      rfl

/-- `v` is what channel `c` plays at `t`: where a frame taken since the last reanchor
covers `t`, the sample at `t` of a plane decoded or made up for that frame; silence, where
none does. -/
structure Faithful (cfg : Assembly.Config α) (s : State α) (t : ℤ) (c : Assembly.Channel)
    (v : α) : Prop where
  covered : ∀ f ∈ posted s.taken, ∀ i : Fin f.frameSize, t = f.timestamp + i.val →
    ∃ m ∈ s.receiver.rx.posted, m.timestamp = f.timestamp ∧
      ∃ plane, m.channels c = some plane ∧
        (⟨c, m.timestamp, plane⟩ ∈ s.receiver.decoded ∨
          Assembly.MadeUp cfg (s.receiver.earlier ++ s.receiver.decoded) c plane) ∧
        plane[i.val]? = some v
  missing : (∀ f ∈ posted s.taken, ∀ i : Fin f.frameSize, t ≠ f.timestamp + i.val) → v = 0

/-- Frames of two samples, and no fading. -/
def twoSamples : Assembly.Config ℤ where
  frameSize := 2
  silence := 0
  fade _ v := v

/-- One frame on all channels: sixteen packets, and sixteen outputs. -/
def frameActions (frameTs : ℕ) (pcm : List ℤ) : List (Action ℤ) :=
  (List.finRange 16).map (fun c => .receive (.push c frameTs)) ++
    (List.finRange 16).map fun c => .receive (.output c pcm)

/-- Two frames are received, posted and placed. -/
def twoFrames : List (Action ℤ) :=
  [.ready, .deliver] ++ frameActions 0 [5, 6] ++ frameActions 2 [7, 8] ++ [.deliver, .deliver]

/-- A test for `Keeps` on the two-sample grid. -/
def keepsGrid : Action ℤ → Bool
  | .receive (.push _ frameTs) => frameTs < 2 ^ 32 && frameTs % 2 == 0
  | .receive (.output _ audioData) => audioData.length == 2
  | _ => true

theorem keeps_of_keepsGrid {a : Action ℤ} (h : keepsGrid a = true) : Keeps twoSamples 0 a := by
  unfold keepsGrid at h
  split at h
  · obtain ⟨hlt, hgrid⟩ := (Bool.and_eq_true _ _).mp h
    exact ⟨of_decide_eq_true hlt, eq_of_beq hgrid⟩
  · exact eq_of_beq h
  · rename_i hpush houtput
    cases a with
    | receive a =>
      cases a with
      | push c frameTs => exact absurd rfl (hpush c frameTs)
      | output c audioData => exact absurd rfl (houtput c audioData)
      | _ => trivial
    | _ => trivial

theorem keeps_twoFrames : ∀ a ∈ twoFrames, Keeps twoSamples 0 a := fun a ha =>
  keeps_of_keepsGrid (List.all_eq_true.mp (by decide +kernel : twoFrames.all keepsGrid = true) a ha)

/-- Both frames have been placed, and can be played. -/
theorem exists_twoFrames : ∃ s, Run (step twoSamples true) (start twoSamples 20) twoFrames s ∧
    s.worklet.Plays [0, 0, 0, 0] := by
  obtain ⟨s, hs, hplays⟩ := (Option.any_eq_true _ _).mp (by decide +kernel :
    (exec (step twoSamples true) (start twoSamples 20) twoFrames).any (fun s =>
      s.worklet.started && decide (4 ≤ s.worklet.writeTs - s.worklet.readTs)) = true)
  obtain ⟨hstarted, hdeep⟩ := (Bool.and_eq_true _ _).mp hplays
  exact ⟨s, .of_exec hs, hstarted, of_decide_eq_true hdeep⟩

theorem playout_bounded_twoFrames :
    ∃ s, Run (step twoSamples true) (start twoSamples 20) twoFrames s ∧
      Bounded twoSamples true s := by
  obtain ⟨s, hrun, -⟩ := exists_twoFrames
  exact ⟨s, hrun, playout_bounded (r := 0) (by decide) (by decide) keeps_twoFrames
    twoFrames [] s (List.append_nil _).symm hrun⟩

end AmbiRTC.Playout
