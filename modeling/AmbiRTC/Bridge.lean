/-
AmbiRTC/Bridge.lean

The bridges from the audio driver to the browsers (bridges/asio_ws_bridge.py and
pipewire_ws_bridge.py, which do the same here).  The audio thread stamps each
frame with the sample clock and has the event loop put it into a bounded queue,
from which a task broadcasts it to the clients.  The first client to connect
resets the clock.

Main results: what each client receives has strictly increasing timestamps in
every run in which a first client finds no frame scheduled or queued
(`timeline_of_quiet`); one that does may see the timeline jump back
(`exists_backwards`).
-/
import AmbiRTC.Runs
import Mathlib.Algebra.Group.Nat.Defs
import Mathlib.Logic.Function.Basic

namespace AmbiRTC.Bridge

open Runs

variable {α : Type}

/-! ### The bridge -/

/-- `_VALID_FRAME_SIZES` -/
def validFrameSizes : List ℕ := [120, 240, 480, 960, 1920, 2880]

/-- `QUEUE_MAX_FRAMES` -/
def queueMaxFrames : ℕ := 8

/-- What is broadcast: the timestamp and the frame. -/
structure Blob (α : Type) where
  ts : ℕ
  samples : α
  deriving DecidableEq, Repr

/-- `AudioBridge`, and what each client has received, from its connection on. -/
structure AudioBridge (α : Type) where
  sampleClock : ℕ
  /-- the `_enqueue` callbacks the event loop has yet to call -/
  scheduled : List (Blob α)
  queue : List (Blob α)
  droppedFrames : ℕ
  clients : List ℕ
  received : ℕ → Option (List (Blob α))

/-- A bridge that has just been started. -/
def start : AudioBridge α where
  sampleClock := 0
  scheduled := []
  queue := []
  droppedFrames := 0
  clients := []
  received := fun _ => none

namespace AudioBridge

/-- The part of `_audio_callback` that a complete frame is for; a clock beyond
eight bytes has no header. -/
def frameComplete (outputFrame : ℕ) (s : AudioBridge α) (samples : α) : Option (AudioBridge α) :=
  if s.sampleClock < 2 ^ 64 then
    some { s with
      sampleClock := s.sampleClock + outputFrame
      scheduled := s.scheduled ++ [⟨s.sampleClock, samples⟩] }
  else none

/-- `_enqueue`. -/
def enqueue (s : AudioBridge α) (blob : Blob α) : AudioBridge α :=
  let s := if queueMaxFrames ≤ s.queue.length then
      { s with queue := s.queue.tail, droppedFrames := s.droppedFrames + 1 }
    else s
  if s.queue.length < queueMaxFrames then { s with queue := s.queue ++ [blob] } else s

/-- Send to every client. -/
def broadcast (s : AudioBridge α) (blob : Blob α) : AudioBridge α :=
  { s with
    received := fun c =>
      if c ∈ s.clients then (s.received c).map fun l => l ++ [blob] else s.received c }

/-- The registration in `_ws_handler`. -/
def connect (s : AudioBridge α) (c : ℕ) : AudioBridge α :=
  let s := if s.clients.isEmpty then { s with sampleClock := 0 } else s
  { s with clients := c :: s.clients, received := Function.update s.received c (some []) }

/-- The `finally` of `_ws_handler`. -/
def disconnect (s : AudioBridge α) (c : ℕ) : AudioBridge α :=
  { s with clients := s.clients.filter fun c' => c' ≠ c }

end AudioBridge

/-- What may happen next. -/
inductive Action (α : Type) where
  /-- the audio thread completes a frame -/
  | complete (samples : α)
  /-- the event loop calls the oldest `_enqueue` -/
  | enqueue
  /-- `_broadcaster` dequeues and sends -/
  | broadcast
  | connect (c : ℕ)
  | disconnect (c : ℕ)
  deriving DecidableEq, Repr

/-- One step; every connection is a client of its own. -/
def step (outputFrame : ℕ) (s : AudioBridge α) : Action α → Option (AudioBridge α)
  | .complete samples => s.frameComplete outputFrame samples
  | .enqueue =>
    match s.scheduled with
    | [] => none
    | blob :: rest => some ({ s with scheduled := rest }.enqueue blob)
  | .broadcast =>
    match s.queue with
    | [] => none
    | blob :: rest => some ({ s with queue := rest }.broadcast blob)
  | .connect c => if (s.received c).isNone then some (s.connect c) else none
  | .disconnect c => if c ∈ s.clients then some (s.disconnect c) else none

/-! ### The timeline -/

/-- Strictly increasing timestamps. -/
def Increasing (l : List (Blob α)) : Prop := l.Pairwise fun b b' => b.ts < b'.ts

/-- Every client receives a strictly increasing timeline. -/
def Timeline (s : AudioBridge α) : Prop := ∀ c l, s.received c = some l → Increasing l

/-- A first client finds no frame scheduled or queued. -/
def Quiet (s : AudioBridge α) : Action α → Prop
  | .connect _ => s.clients = [] → s.queue = [] ∧ s.scheduled = []
  | _ => True

/-- What has been received goes on with what is queued and scheduled, and with
what the clock has yet to stamp. -/
structure Ahead (s : AudioBridge α) (l : List (Blob α)) : Prop where
  increasing : Increasing (l ++ (s.queue ++ s.scheduled))
  below : ∀ b ∈ l ++ (s.queue ++ s.scheduled), b.ts < s.sampleClock

/-- The timeline of the bridge: of the frames in flight, of every client that is
connected, and of those that were. -/
structure Inv (s : AudioBridge α) : Prop where
  inFlight : Ahead s []
  connected : ∀ c ∈ s.clients, ∃ l, s.received c = some l ∧ Ahead s l
  timeline : Timeline s

variable {outputFrame : ℕ} {s s' : AudioBridge α} {l : List (Blob α)}

theorem inv_start : Inv (start : AudioBridge α) where
  inFlight := ⟨List.Pairwise.nil, fun _ hb => nomatch hb⟩
  connected := fun _ hc => nomatch hc
  timeline := fun _ _ h => nomatch h

/-- Frames may get lost on the way. -/
theorem Ahead.of_sublist (h : Ahead s l) (s' : AudioBridge α)
    (hclock : s'.sampleClock = s.sampleClock) {l' : List (Blob α)}
    (hsub : (l' ++ (s'.queue ++ s'.scheduled)).Sublist (l ++ (s.queue ++ s.scheduled))) :
    Ahead s' l' where
  increasing := h.increasing.sublist hsub
  below b hb := by
    rw [hclock]
    exact h.below b (hsub.subset hb)

theorem Ahead.received (h : Ahead s l) : Increasing l :=
  h.increasing.sublist (List.sublist_append_left _ _)

theorem Ahead.complete (h : Ahead s l) (hpos : 0 < outputFrame) {samples : α}
    (hstep : s.frameComplete outputFrame samples = some s') : Ahead s' l := by
  obtain ⟨-, heq⟩ := Option.ite_none_right_eq_some.mp hstep
  obtain rfl := Option.some.inj heq
  have hassoc : l ++ (s.queue ++ (s.scheduled ++ [⟨s.sampleClock, samples⟩]))
      = (l ++ (s.queue ++ s.scheduled)) ++ [⟨s.sampleClock, samples⟩] := by
    simp only [List.append_assoc]
  constructor
  · show Increasing (l ++ (s.queue ++ (s.scheduled ++ [⟨s.sampleClock, samples⟩])))
    rw [hassoc]
    refine List.pairwise_append.mpr ⟨h.increasing, List.pairwise_singleton _ _, ?_⟩
    intro b hb b' hb'
    rw [List.mem_singleton.mp hb']
    exact h.below b hb
  · intro b hb
    simp only at hb ⊢
    rw [hassoc] at hb
    rcases List.mem_append.mp hb with hb | hb
    · exact Nat.lt_add_right _ (h.below b hb)
    · rw [List.mem_singleton.mp hb]
      exact Nat.lt_add_of_pos_right hpos

/-- A callback moves a frame from the schedule to the queue, or loses one. -/
theorem enqueue_sublist (s : AudioBridge α) (blob : Blob α) :
    (s.enqueue blob).queue.Sublist (s.queue ++ [blob]) := by
  have htail : s.queue.tail.Sublist s.queue := List.tail_sublist _
  unfold AudioBridge.enqueue
  simp only
  split
  · split
    · exact htail.append_right [blob]
    · exact htail.trans (List.sublist_append_left _ _)
  · split
    · exact List.Sublist.refl _
    · exact List.sublist_append_left _ _

theorem enqueue_frame (s : AudioBridge α) (blob : Blob α) :
    (s.enqueue blob).sampleClock = s.sampleClock ∧ (s.enqueue blob).scheduled = s.scheduled ∧
      (s.enqueue blob).clients = s.clients ∧ (s.enqueue blob).received = s.received := by
  unfold AudioBridge.enqueue
  simp only
  split <;> split <;> exact ⟨rfl, rfl, rfl, rfl⟩

theorem Inv.enqueue (hs : Inv s) {blob : Blob α} {rest : List (Blob α)}
    (hscheduled : s.scheduled = blob :: rest) :
    Inv ({ s with scheduled := rest }.enqueue blob) := by
  obtain ⟨hclock, hrest, hclients, hreceived⟩ := enqueue_frame { s with scheduled := rest } blob
  have hahead : ∀ l, Ahead s l → Ahead ({ s with scheduled := rest }.enqueue blob) l := by
    intro l h
    refine h.of_sublist _ hclock (List.Sublist.append_left ?_ l)
    rw [hrest, hscheduled, List.append_cons]
    exact (enqueue_sublist { s with scheduled := rest } blob).append_right rest
  refine ⟨hahead [] hs.inFlight, fun c hc => ?_, fun c l hl => ?_⟩
  · rw [hclients] at hc
    obtain ⟨l, hl, h⟩ := hs.connected c hc
    exact ⟨l, by rw [hreceived, hl], hahead l h⟩
  · rw [hreceived] at hl
    exact hs.timeline c l hl

theorem Inv.broadcast (hs : Inv s) {blob : Blob α} {rest : List (Blob α)}
    (hqueue : s.queue = blob :: rest) : Inv ({ s with queue := rest }.broadcast blob) := by
  have hsent : ∀ l, Ahead s l → Ahead ({ s with queue := rest }.broadcast blob) (l ++ [blob]) := by
    intro l h
    refine h.of_sublist ({ s with queue := rest }.broadcast blob) rfl ?_
    have happend : l ++ (blob :: rest ++ s.scheduled) = (l ++ [blob]) ++ (rest ++ s.scheduled) := by
      simp
    rw [hqueue, happend]
    exact List.Sublist.refl _
  have hreceived : ∀ c, c ∈ s.clients →
      ∃ l, ({ s with queue := rest }.broadcast blob).received c = some l ∧
        Ahead ({ s with queue := rest }.broadcast blob) l := by
    intro c hc
    obtain ⟨l, hl, h⟩ := hs.connected c hc
    refine ⟨l ++ [blob], ?_, hsent l h⟩
    show (if c ∈ s.clients then (s.received c).map fun l => l ++ [blob] else s.received c) = _
    rw [if_pos hc, hl, Option.map_some]
  refine ⟨hs.inFlight.of_sublist ({ s with queue := rest }.broadcast blob) rfl ?_, hreceived,
    fun c l hl => ?_⟩
  · rw [hqueue]
    exact List.sublist_cons_self _ _
  · by_cases hc : c ∈ s.clients
    · obtain ⟨l', hl', h⟩ := hreceived c hc
      obtain rfl := Option.some.inj (hl.symm.trans hl')
      exact h.received
    · apply hs.timeline c l
      rw [← hl]
      exact (if_neg hc).symm

theorem Inv.connect (hs : Inv s) {c : ℕ} (hquiet : Quiet s (.connect c))
    (hnew : s.received c = none) : Inv (s.connect c) := by
  have hahead : ∀ l, l = [] ∨ s.clients ≠ [] → Ahead s l → Ahead (s.connect c) l := by
    intro l hl h
    cases hclients : s.clients with
    | nil =>
      -- nothing is in flight, and the clock starts again
      obtain rfl := hl.resolve_right fun hne => hne hclients
      have hempty : (s.connect c).queue ++ (s.connect c).scheduled = [] := by
        obtain ⟨hqueue, hscheduled⟩ := hquiet hclients
        simp [AudioBridge.connect, hclients, hqueue, hscheduled]
      refine ⟨?_, fun b hb => ?_⟩
      · rw [List.nil_append, hempty]
        exact List.Pairwise.nil
      · rw [List.nil_append, hempty] at hb
        cases hb
    | cons c' cs =>
      have hconnect : s.connect c = { s with
          clients := c :: s.clients
          received := Function.update s.received c (some []) } := by
        simp [AudioBridge.connect, hclients]
      rw [hconnect]
      exact ⟨h.increasing, h.below⟩
  have hreceived : (s.connect c).received = Function.update s.received c (some []) := by
    unfold AudioBridge.connect
    simp only
    split <;> rfl
  have hclients : (s.connect c).clients = c :: s.clients := by
    unfold AudioBridge.connect
    simp only
    split <;> rfl
  refine ⟨hahead [] (Or.inl rfl) hs.inFlight, fun c' hc' => ?_, fun c' l hl => ?_⟩
  · rw [hclients] at hc'
    rw [hreceived]
    by_cases heq : c' = c
    · subst heq
      exact ⟨[], Function.update_self .., hahead [] (Or.inl rfl) hs.inFlight⟩
    · have hmem := (List.mem_cons.mp hc').resolve_left heq
      obtain ⟨l, hl, h⟩ := hs.connected c' hmem
      exact ⟨l, (Function.update_of_ne heq ..).trans hl,
        hahead l (Or.inr (List.ne_nil_of_mem hmem)) h⟩
  · rw [hreceived] at hl
    by_cases heq : c' = c
    · subst heq
      rw [Function.update_self] at hl
      obtain rfl := Option.some.inj hl
      exact List.Pairwise.nil
    · rw [Function.update_of_ne heq] at hl
      exact hs.timeline c' l hl

/-- **One step.** -/
theorem Inv.kept (hs : Inv s) (hpos : 0 < outputFrame) {a : Action α} (hquiet : Quiet s a)
    (h : step outputFrame s a = some s') : Inv s' := by
  cases a with
  | complete samples =>
    have hstep : s.frameComplete outputFrame samples = some s' := h
    obtain ⟨-, heq⟩ := Option.ite_none_right_eq_some.mp hstep
    refine ⟨hs.inFlight.complete hpos hstep, fun c hc => ?_, fun c l hl => ?_⟩
    · have hc' : c ∈ s.clients := by
        rwa [← Option.some.inj heq] at hc
      obtain ⟨l, hl, h⟩ := hs.connected c hc'
      exact ⟨l, by rw [← Option.some.inj heq, hl], h.complete hpos hstep⟩
    · rw [← Option.some.inj heq] at hl
      exact hs.timeline c l hl
  | enqueue =>
    simp only [step] at h
    split at h
    · cases h
    · obtain rfl := Option.some.inj h
      exact hs.enqueue ‹_›
  | broadcast =>
    simp only [step] at h
    split at h
    · cases h
    · obtain rfl := Option.some.inj h
      exact hs.broadcast ‹_›
  | connect c =>
    obtain ⟨hnew, heq⟩ := Option.ite_none_right_eq_some.mp h
    obtain rfl := Option.some.inj heq
    exact hs.connect hquiet (Option.isNone_iff_eq_none.mp hnew)
  | disconnect c =>
    obtain ⟨-, heq⟩ := Option.ite_none_right_eq_some.mp h
    obtain rfl := Option.some.inj heq
    refine ⟨hs.inFlight.of_sublist (s.disconnect c) rfl (List.Sublist.refl _), fun c' hc' => ?_,
      hs.timeline⟩
    obtain ⟨l, hl, h⟩ := hs.connected c' (List.mem_of_mem_filter hc')
    exact ⟨l, hl, h.of_sublist (s.disconnect c) rfl (List.Sublist.refl _)⟩

/-- **The timeline of every client is strictly increasing** in every run in which
a first client finds no frame scheduled or queued. -/
theorem timeline_of_quiet (hframe : outputFrame ∈ validFrameSizes) {as : List (Action α)}
    (hquiet : Along (step outputFrame) Quiet start as) :
    Throughout (step outputFrame) Timeline start as := by
  have hpos : 0 < outputFrame := by
    revert hframe
    simp only [validFrameSizes, List.mem_cons, List.not_mem_nil, or_false]
    omega
  intro as₁ as₂ s has hrun
  exact (throughout_of_along (fun _ _ _ hs hP h => hs.kept hpos hP h) hquiet inv_start
    as₁ as₂ s has hrun).timeline

/-! ### Frames in flight -/

/-- The bridge hands a client everything in flight. -/
theorem run_drain {c : ℕ} (hc : c ∈ s.clients) (hl : s.received c = some l) :
    ∃ as s', Run (step outputFrame) s as s' ∧ (∀ c', .connect c' ∉ as) ∧
      s'.received c = some (l ++ (s.queue ++ s.scheduled)) ∧ s'.queue = [] ∧
      s'.scheduled = [] ∧ s'.sampleClock = s.sampleClock ∧ c ∈ s'.clients := by
  -- first the queue, then what is scheduled, a frame at a time
  induction hn : s.queue.length + 2 * s.scheduled.length using Nat.strongRecOn
    generalizing s l with
  | ind n ih =>
    subst hn
    rcases hqueue : s.queue with - | ⟨blob, rest⟩
    · rcases hscheduled : s.scheduled with - | ⟨blob, rest⟩
      · exact ⟨[], s, .nil s, by simp, by simpa using hl, hqueue, hscheduled, rfl, hc⟩
      · let s₁ : AudioBridge α := { s with scheduled := rest, queue := [blob] }
        have hstep : step outputFrame s .enqueue = some s₁ := by
          simp [step, hscheduled, AudioBridge.enqueue, hqueue, queueMaxFrames, s₁]
        obtain ⟨as, s', hrun, hno, hreceived, hend⟩ := @ih _
          (by simp [s₁, hqueue, hscheduled]; omega) s₁ l hc hl rfl
        refine ⟨.enqueue :: as, s', .cons hstep hrun, by simpa using hno, ?_, hend⟩
        rw [hreceived]
        rfl
    · let s₁ : AudioBridge α := { s with queue := rest }.broadcast blob
      have hstep : step outputFrame s .broadcast = some s₁ := by
        simp [step, hqueue, s₁]
      have hl₁ : s₁.received c = some (l ++ [blob]) := by
        simp [s₁, AudioBridge.broadcast, hc, hl]
      obtain ⟨as, s', hrun, hno, hreceived, hend⟩ := @ih _
        (by simp [s₁, AudioBridge.broadcast, hqueue]) s₁ (l ++ [blob]) hc hl₁ rfl
      refine ⟨.broadcast :: as, s', .cons hstep hrun, by simpa using hno, ?_, hend⟩
      rw [hreceived]
      simp [s₁, AudioBridge.broadcast]

/-- **A first client that finds frames in flight** may receive them, and then the
timeline that starts again. -/
theorem exists_backwards {c : ℕ} (hclients : s.clients = []) (hnew : s.received c = none)
    (hflight : s.queue ++ s.scheduled ≠ []) :
    ∃ as s', Run (step outputFrame) s (.connect c :: as) s' ∧ (∀ c', .connect c' ∉ as) ∧
      ¬Timeline s' := by
  obtain ⟨blob, rest, hblob⟩ := List.exists_cons_of_ne_nil hflight
  have hconnect : step outputFrame s (.connect c) = some (s.connect c) := by
    simp [step, hnew]
  obtain ⟨as₁, s₁, hrun₁, hno₁, hreceived₁, hqueue₁, hscheduled₁, hclock₁, hc₁⟩ :=
    @run_drain α outputFrame (s.connect c) [] c (by simp [AudioBridge.connect])
      (by simp [AudioBridge.connect])
  let s₂ : AudioBridge α :=
    { s₁ with sampleClock := outputFrame, scheduled := [⟨0, blob.samples⟩] }
  have hcomplete : step outputFrame s₁ (.complete blob.samples) = some s₂ := by
    have hzero : s₁.sampleClock = 0 := by
      rw [hclock₁]
      simp [AudioBridge.connect, hclients]
    simp [step, AudioBridge.frameComplete, hzero, hscheduled₁, s₂]
  obtain ⟨as₂, s', hrun₂, hno₂, hreceived₂, -⟩ :=
    @run_drain α outputFrame s₂ _ c hc₁ hreceived₁
  refine ⟨as₁ ++ .complete blob.samples :: as₂, s',
    .cons hconnect (hrun₁.append (.cons hcomplete hrun₂)), ?_, fun h => ?_⟩
  · intro c' hmem
    simp only [List.mem_append, List.mem_cons, reduceCtorEq, false_or] at hmem
    exact hmem.elim (hno₁ c') (hno₂ c')
  · -- the frame found in flight comes before one stamped 0
    have hlist : [] ++ ((s.connect c).queue ++ (s.connect c).scheduled)
        ++ (s₂.queue ++ s₂.scheduled) = blob :: (rest ++ [⟨0, blob.samples⟩]) := by
      have hsame : (s.connect c).queue ++ (s.connect c).scheduled = blob :: rest := by
        rw [← hblob]
        simp [AudioBridge.connect, hclients]
      rw [List.nil_append, hsame]
      show blob :: rest ++ (s₁.queue ++ [⟨0, blob.samples⟩]) = _
      rw [hqueue₁]
      rfl
    rw [hlist] at hreceived₂
    have hlt := (List.pairwise_cons.mp (h c _ hreceived₂)).1 ⟨0, blob.samples⟩ (by simp)
    exact Nat.not_lt_zero _ hlt

/-- A client connects, a second one joins it, both leave and a third comes. -/
def orderly : List (Action Unit) :=
  [.connect 0, .complete (), .complete (), .enqueue, .broadcast, .connect 1, .enqueue, .complete (),
    .enqueue, .broadcast, .broadcast, .disconnect 0, .disconnect 1, .connect 2, .complete (),
    .complete (), .enqueue, .broadcast, .enqueue, .broadcast]

/-- `Quiet`, computed. -/
def quiet (s : AudioBridge α) : Action α → Bool
  | .connect _ => !s.clients.isEmpty || (s.queue.isEmpty && s.scheduled.isEmpty)
  | _ => true

theorem quiet_of_quiet (s : AudioBridge α) (a : Action α) (h : quiet s a = true) : Quiet s a := by
  cases a with
  | connect c =>
    intro hclients
    simpa [quiet, hclients] using h
  | _ => trivial

/-- The three receive the timestamps 0, 960, 1920, then 960, 1920, then 0, 960. -/
theorem timeline_of_quiet_orderly :
    (exec (step 960) start orderly).map (fun s => [s.received 0, s.received 1, s.received 2]) =
      some [some [⟨0, ()⟩, ⟨960, ()⟩, ⟨1920, ()⟩], some [⟨960, ()⟩, ⟨1920, ()⟩],
        some [⟨0, ()⟩, ⟨960, ()⟩]] ∧
    Throughout (step 960) Timeline start orderly :=
  ⟨by decide, timeline_of_quiet (by decide) (along_of_check quiet_of_quiet (by decide))⟩

/-- A client comes while the bridge has been running for a frame. -/
def midStream : List (Action Unit) :=
  [.complete (), .complete (), .connect 0, .complete (), .enqueue, .enqueue, .enqueue, .broadcast,
    .broadcast, .broadcast]

/-- The client receives the timestamps 0, 960, 0. -/
theorem not_timeline_midStream :
    ∃ s, Run (step 960) start midStream s ∧ ¬Timeline s := by
  obtain ⟨s, hs, hreceived⟩ := (Option.any_eq_true _ _).mp
    (by decide : (exec (step 960) start midStream).any (fun s =>
      s.received 0 = some [⟨0, ()⟩, ⟨960, ()⟩, ⟨0, ()⟩]) = true)
  refine ⟨s, .of_exec hs, fun h => ?_⟩
  have hincreasing := h 0 _ (of_decide_eq_true hreceived)
  revert hincreasing
  simp [Increasing]

end AmbiRTC.Bridge
