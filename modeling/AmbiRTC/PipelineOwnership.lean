/-
AmbiRTC/PipelineOwnership.lean

Frame ownership in the encode pipeline, put together from the two abstract
models and from what marshalling comes to.

Main result: in every state of every run, with any number of workers, each frame
object is in one place, with the reference count it should have there, and each
use of a frame is released once, after every worker is done with it and after its
bundles were marshalled from what was encoded in it (`ownership`).
-/
import AmbiRTC.PipelineBundles

namespace AmbiRTC

namespace Pipeline

open DropOldest FanOut Runs

variable {A : Type} {K : ℕ}

/-! ### Places -/

/-- Where a frame object can be. -/
inductive Place where
  | pool
  | submitMix
  | mixCh
  | encoding
  deriving DecidableEq, Repr

/-- The frame objects in each place.  A frame is dispatched or encoding when a worker
is busy with it, has it queued, or is going to get it. -/
def State.Within (s : State A K) (fr : ℕ) : Place → Prop
  | .pool => fr ∈ s.pool
  | .submitMix => s.mixer.fresh = some fr ∨ s.mixer.stale = some fr
  | .mixCh => fr ∈ s.mixCh
  | .encoding => ∃ w, fr ∈ s.fan.held w

/-- A use is under way: some frame outside the pool has it. -/
def State.Active (s : State A K) (u : ℕ) : Prop :=
  ∃ fr place, place ≠ .pool ∧ s.Within fr place ∧ (s.heap fr).use = u

/-- Each frame object the garbage collector has left is in one place, once, and its
count is the number of workers that have not finished it. -/
structure Owned (s : State A K) : Prop where
  place : ∀ fr < s.allocated, fr ∉ s.collected → ∃! place, s.Within fr place
  pool_nodup : s.pool.Nodup
  mixCh_nodup : s.mixCh.Nodup
  held_nodup : ∀ w, (s.fan.held w).Nodup
  refs : ∀ fr, s.Within fr .encoding → (s.heap fr).refs
    = (Finset.univ.filter fun w => (s.log (s.heap fr).use).life.done w = 0).card

/-- A use goes as it should: one release, at its end and not before; a dispatched one
done once by every worker and, in bundled mode, sent once and entirely, before the
release; every payload marshalled for a channel encoded from the PCM of this use. -/
structure Accounted (cfg : Config A) (s : State A K) (u : ℕ) : Prop where
  unreleased : s.Active u → (s.log u).life.released = 0
  released : ¬ s.Active u → (s.log u).life.released = 1
  dispatched : (s.log u).life.dispatched ≤ 1
  done_le : ∀ w, (s.log u).life.done w ≤ (s.log u).life.dispatched
  done : (s.log u).life.dispatched = 1 → (s.log u).life.released = 1 →
    ∀ w, (s.log u).life.done w = 1
  bundled_le : (s.log u).life.bundled ≤ (s.log u).life.dispatched
  bundled_done : (s.log u).life.bundled = 1 →
    cfg.bundled = true ∧ ∀ w, (s.log u).life.done w = 1
  bundled : cfg.bundled = true → (s.log u).life.dispatched = 1 → (s.log u).life.released = 1 →
    (s.log u).life.bundled = 1 ∧ (s.log u).marshalled.map Prod.fst = cfg.layout
  payload : ∀ group chans, (group, chans) ∈ (s.log u).marshalled → ∀ ch payload,
    ⟨ch, payload⟩ ∈ chans ↔ ch ∈ group ∧ payload ≠ [] ∧
      (s.log u).encoded ch.toNat = some ((s.log u).pcm ch.toNat, some payload)
  encoded : (s.log u).marshalled ≠ [] → ∀ c < channels, ∃ result,
    (s.log u).encoded c = some ((s.log u).pcm c, result)

variable {cfg : Config A} {s : State A K} {bundled : Bool}

/-! ### Frames -/

theorem within_encoding_iff (hok : s.custody.Ok bundled) {fr : ℕ} :
    s.Within fr .encoding ↔ fr ∈ s.flight :=
  ⟨fun ⟨_, hw⟩ => hok.fan.mem_flight hw, fun hfr => hok.fan.holder fr hfr⟩

/-- A frame outside the pool is in use. -/
theorem inUse_iff (hok : s.custody.Ok bundled) {fr : ℕ} :
    s.custody.InUse fr ↔ ∃ place, place ≠ .pool ∧ s.Within fr place := by
  constructor
  · rintro (hline | hstale)
    · rcases Custody.mem_line.mp hline with hfr | hfr | hfr
      · exact ⟨.encoding, by decide, (within_encoding_iff hok).mpr hfr⟩
      · exact ⟨.mixCh, by decide, hfr⟩
      · exact ⟨.submitMix, by decide, Or.inl hfr⟩
    · exact ⟨.submitMix, by decide, Or.inr hstale⟩
  · rintro ⟨place, hplace, hfr⟩
    cases place with
    | pool => exact absurd rfl hplace
    | submitMix =>
      rcases hfr with hfr | hfr
      · exact Or.inl (Custody.mem_line.mpr (Or.inr (Or.inr hfr)))
      · exact Or.inr hfr
    | mixCh => exact Or.inl (Custody.mem_line.mpr (Or.inr (Or.inl hfr)))
    | encoding =>
      exact Or.inl (Custody.mem_line.mpr (Or.inl ((within_encoding_iff hok).mp hfr)))

theorem active_iff (hok : s.custody.Ok bundled) {u : ℕ} :
    s.Active u ↔ ∃ fr, s.custody.InUse fr ∧ (s.heap fr).use = u := by
  constructor
  · rintro ⟨fr, place, hplace, hfr, huse⟩
    exact ⟨fr, (inUse_iff hok).mpr ⟨place, hplace, hfr⟩, huse⟩
  · rintro ⟨fr, hfr, huse⟩
    obtain ⟨place, hplace, hin⟩ := (inUse_iff hok).mp hfr
    exact ⟨fr, place, hplace, hin, huse⟩

/-- How often a frame is where, in numbers. -/
theorem count_places (hok : s.custody.Ok bundled) (fr : ℕ) :
    s.pool.count fr + s.flight.count fr + s.mixCh.count fr
      + (s.mixer.fresh.toList.count fr + s.mixer.stale.toList.count fr) + s.collected.count fr
      = if fr < s.allocated then 1 else 0 := by
  have hcount := hok.owned fr
  rw [Custody.line, List.count_append, List.count_append] at hcount
  change s.pool.count fr + (s.flight.count fr + s.mixCh.count fr + s.mixer.fresh.toList.count fr)
    + s.mixer.stale.toList.count fr + s.collected.count fr
    = if fr < s.allocated then 1 else 0 at hcount
  omega

/-- A frame is in a place just if it is counted there. -/
theorem within_iff_count (hok : s.custody.Ok bundled) (fr : ℕ) (place : Place) :
    s.Within fr place ↔ 0 < (match place with
      | .pool => s.pool.count fr
      | .submitMix => s.mixer.fresh.toList.count fr + s.mixer.stale.toList.count fr
      | .mixCh => s.mixCh.count fr
      | .encoding => s.flight.count fr) := by
  cases place with
  | pool => exact List.count_pos_iff.symm
  | submitMix =>
    simp only [State.Within, Nat.add_pos_iff_pos_or_pos, List.count_pos_iff, Option.mem_toList]
  | mixCh => exact List.count_pos_iff.symm
  | encoding =>
    rw [within_encoding_iff hok]
    exact List.count_pos_iff.symm

theorem owned_of_ok (hok : s.custody.Ok bundled) : Owned s where
  place fr hfr hcollected := by
    have hcount := count_places hok fr
    rw [if_pos hfr, List.count_eq_zero.mpr hcollected] at hcount
    -- the counts add up to one, so one of them is positive and the others are zero
    have hone : ∃ place, s.Within fr place := by
      by_contra hnone
      push Not at hnone
      have h₁ := (within_iff_count hok fr .pool).not.mp (hnone .pool)
      have h₂ := (within_iff_count hok fr .submitMix).not.mp (hnone .submitMix)
      have h₃ := (within_iff_count hok fr .mixCh).not.mp (hnone .mixCh)
      have h₄ := (within_iff_count hok fr .encoding).not.mp (hnone .encoding)
      simp only at h₁ h₂ h₃ h₄
      omega
    obtain ⟨place, hplace⟩ := hone
    refine ⟨place, hplace, fun place' hplace' => ?_⟩
    rw [within_iff_count hok] at hplace hplace'
    cases place <;> cases place' <;> simp only at hplace hplace' ⊢ <;> omega
  pool_nodup := by
    rw [List.nodup_iff_count_le_one]
    intro fr
    have hcount := count_places hok fr
    split at hcount <;> omega
  mixCh_nodup := by
    rw [List.nodup_iff_count_le_one]
    intro fr
    have hcount := count_places hok fr
    split at hcount <;> omega
  held_nodup w := hok.fan.nodup.sublist (hok.fan.suffix w).sublist
  refs fr hfr := by
    have hflight := (within_encoding_iff hok).mp hfr
    have hlife : (s.log (s.heap fr).use).life = s.custody.flying bundled fr := hok.flies fr hflight
    rw [show (s.heap fr).refs = s.custody.refs fr from rfl, hok.refs fr hflight, hlife]
    refine congrArg (fun ws : Finset (Fin K) => (ws.card : ℤ)) (Finset.filter_congr fun w _ => ?_)
    -- a dispatched frame is done by exactly the workers that have it no more to do
    rw [Custody.flying]
    by_cases hw : fr ∈ s.custody.fan.todo w <;> simp [hw]

/-! ### Uses -/

/-- A use is waiting to be dispatched, under way with the workers, or over. -/
theorem life_cases (hok : s.custody.Ok bundled) {u : ℕ} (hu : u < s.uses) :
    (s.Active u ∧ (s.log u).life = .new) ∨
    (s.Active u ∧ ∃ fr ∈ s.flight, (s.log u).life = s.custody.flying bundled fr) ∨
    (¬ s.Active u ∧ Custody.Over bundled (s.log u).life) := by
  by_cases hactive : s.Active u
  · obtain ⟨fr, hfr, huse⟩ := (active_iff hok).mp hactive
    have hwaiting : fr ∈ s.flight ∨ fr ∈ s.mixCh ∨ s.mixer.fresh = some fr ∨
        s.mixer.stale = some fr := by
      rcases hfr with hline | hstale
      · rcases Custody.mem_line.mp hline with h | h | h
        · exact Or.inl h
        · exact Or.inr (Or.inl h)
        · exact Or.inr (Or.inr (Or.inl h))
      · exact Or.inr (Or.inr (Or.inr hstale))
    rw [← huse]
    rcases hwaiting with hflight | hwaiting
    · exact Or.inr (Or.inl ⟨huse ▸ hactive, fr, hflight, hok.flies fr hflight⟩)
    · exact Or.inl ⟨huse ▸ hactive, hok.waiting fr hwaiting⟩
  · refine Or.inr (Or.inr ⟨hactive, hok.ended u hu fun fr hfr huse => hactive ?_⟩)
    exact (active_iff hok).mpr ⟨fr, hfr, huse⟩

/-- What `sendBundled` collects for a group. -/
theorem mem_groupPayloads {encoded : ℕ → List UInt8} {group : List UInt8} {ch : UInt8}
    {payload : List UInt8} :
    ⟨ch, payload⟩ ∈ groupPayloads encoded group ↔
      ch ∈ group ∧ payload ≠ [] ∧ encoded ch.toNat = payload := by
  rw [groupPayloads, List.mem_filterMap]
  constructor
  · rintro ⟨ch', hch', heq⟩
    split at heq
    next hpos =>
      obtain ⟨rfl, rfl⟩ := ChannelPayload.mk.inj (Option.some.inj heq)
      exact ⟨hch', List.length_pos_iff.mp hpos, rfl⟩
    next => cases heq
  · rintro ⟨hch, hne, rfl⟩
    exact ⟨ch, hch, if_pos (List.length_pos_iff.mpr hne)⟩

theorem outcome_eq_iff {x : Option (A × Option (List UInt8))} {payload : List UInt8}
    (hne : payload ≠ []) :
    Progress.outcome x = payload ↔ ∃ pcm, x = some (pcm, some payload) := by
  constructor
  · intro h
    match x with
    | none => exact absurd h.symm hne
    | some (_, none) => exact absurd h.symm hne
    | some (pcm, some _) =>
      obtain rfl : _ = payload := h
      exact ⟨pcm, rfl⟩
  · rintro ⟨pcm, rfl⟩
    rfl

theorem accounted_of_ok (hok : s.custody.Ok cfg.bundled) (hprogress : s.progress.Ok cfg.bundled)
    (hbundles : Bundles cfg s) {u : ℕ} (hu : u < s.uses) : Accounted cfg s u := by
  have hsource : ∀ c x r, (s.log u).encoded c = some (x, r) → x = (s.log u).pcm c :=
    hprogress.source u
  have hpayload : ∀ group chans, (group, chans) ∈ (s.log u).marshalled → ∀ ch payload,
      ⟨ch, payload⟩ ∈ chans ↔ ch ∈ group ∧ payload ≠ [] ∧
        (s.log u).encoded ch.toNat = some ((s.log u).pcm ch.toNat, some payload) := by
    -- the payloads stood in the frame, which holds what was encoded in this use
    intro group chans hin ch payload
    rw [hbundles.content u group chans hin, mem_groupPayloads]
    refine and_congr_right fun _ => and_congr_right fun hne => ?_
    rw [outcome_eq_iff hne]
    constructor
    · rintro ⟨pcm, heq⟩
      rw [heq, hsource _ _ _ heq]
    · exact fun heq => ⟨_, heq⟩
  have hencoded : (s.log u).marshalled ≠ [] → ∀ c < channels, ∃ result,
      (s.log u).encoded c = some ((s.log u).pcm c, result) := by
    intro hne c hc
    obtain ⟨⟨x, r⟩, heq⟩ := Option.ne_none_iff_exists'.mp (hbundles.encoded u hne c hc)
    exact ⟨r, by rw [heq, hsource c x r heq]⟩
  rcases life_cases hok hu with ⟨hactive, hlife⟩ | ⟨hactive, fr, hfr, hlife⟩ |
    ⟨hactive, hlife | hlife⟩
  · -- waiting: nothing has happened to it
    constructor
    case payload => exact hpayload
    case encoded => exact hencoded
    all_goals simp [hlife, hactive, Life.new]
  · -- dispatched: done by those that do not have it to do any more
    have hdone : ∀ w, s.custody.fan.left fr = 0 → fr ∉ s.custody.fan.todo w :=
      fun w hleft => Fan.left_eq_zero_iff.mp hleft w
    constructor
    case payload => exact hpayload
    case encoded => exact hencoded
    case done_le =>
      intro w
      simp only [hlife, Custody.flying]
      split <;> omega
    case bundled_le =>
      simp only [hlife, Custody.flying]
      split <;> omega
    case bundled_done =>
      simp only [hlife, Custody.flying]
      intro hone
      split at hone
      next hboth => exact ⟨hboth.1, fun w => if_neg (hdone w hboth.2)⟩
      next => cases hone
    all_goals simp [hlife, hactive, Custody.flying]
  · -- displaced, and never dispatched
    constructor
    case payload => exact hpayload
    case encoded => exact hencoded
    all_goals simp [hlife, hactive]
  · -- dispatched and over: the worker that released it had marshalled every group
    have hfull := hbundles.released u (by rw [hlife]; exact one_ne_zero)
      (by rw [hlife]; exact one_ne_zero)
    constructor
    case payload => exact hpayload
    case encoded => exact hencoded
    case bundled_le =>
      simp only [hlife]
      split <;> omega
    case bundled_done =>
      simp only [hlife]
      intro hone
      split at hone
      next hb => exact ⟨hb, fun _ => trivial⟩
      next => cases hone
    all_goals simp [hlife, hactive, hfull]

/-! ### Every run -/

/-- **Frame ownership.**  In every state of every run, whatever the number of workers
and the interleaving, frames are where they should be and every use is accounted for. -/
theorem ownership (cfg : Config A) (hK : 0 < K) {as : List (Action A K)} {s : State A K}
    (h : Run (step cfg) (initial cfg) as s) : Owned s ∧ ∀ u < s.uses, Accounted cfg s u := by
  have hinv : s.Ok cfg.bundled ∧ Bundles cfg s := by
    refine invariant_of_stepped (I := fun s => s.Ok cfg.bundled ∧ Bundles cfg s) ?_ h
      ⟨ok_initial cfg, bundles_initial cfg⟩
    rintro s₁ s₂ ⟨hok, hbundles⟩ hstep
    exact ⟨ok_step hK hok hstep, bundles_step hK hok.1 hok.2 hbundles hstep⟩
  exact ⟨owned_of_ok hinv.1.1, fun u hu => accounted_of_ok hinv.1.1 hinv.1.2 hinv.2 hu⟩

/-- Frames of 960 samples in bundled mode; the PCM of a channel is a number here. -/
def duoConfig : Config ℕ := ⟨true, 960, 0⟩

/-- Two workers take one frame from `SubmitMix` to the pool; the encoder fails on
channel 5. -/
def duo : List (Action ℕ 2) :=
  [.submit (fun c => c + 1) 960 false none, .fill, .pushMix, .dispatch, .sendJob, .sendJob,
    .take 1, .take 0]
  ++ (List.range 8).map (fun c => .encode 0 (if c = 5 then none else some [7]))
  ++ (List.range 8).map (fun _ => .encode 1 (some [8, 9]))
  ++ [.finish 1, .finish 0, .marshal 0, .push 0, .marshal 0, .push 0, .marshal 0, .push 0,
    .marshal 0, .push 0, .marshal 0, .release 0]

/-- Afterwards the frame is in the pool, and its use accounted for. -/
theorem ownership_duo :
    ∃ s, Run (step duoConfig) (initial duoConfig) duo s ∧ s.pool = [0] ∧ s.uses = 1 ∧
      (s.log 0).life.released = 1 ∧ Owned s ∧ ∀ u < s.uses, Accounted duoConfig s u := by
  have hexec : (exec (step duoConfig) (initial duoConfig) duo).map
      (fun s => (s.pool, s.uses, (s.log 0).life.released)) = some ([0], 1, 1) := by
    decide +kernel
  obtain ⟨s, hs, heq⟩ := Option.map_eq_some_iff.mp hexec
  obtain ⟨hpool, huses, hreleased⟩ := by simpa only [Prod.mk.injEq] using heq
  exact ⟨s, Run.of_exec hs, hpool, huses, hreleased,
    ownership duoConfig (by decide) (Run.of_exec hs)⟩

end Pipeline

end AmbiRTC
