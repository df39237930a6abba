/-
AmbiRTC/DecoderQueue.lean

The timestamps of decoder outputs (client/engine.js, `_pushDecoderTimestamp`,
`_shiftDecoderTimestamp`).  A decoder gives no usable timestamps, so the client
keeps those of the chunks it submits in a queue for each channel, and takes the
next one for each output.  The queue is a ring of 64; a push that finds it full
drops the oldest timestamp, but not the output that is to come for it.

Main results: the ring is the list queue of the assembler (`tsQueues_push`,
`tsQueues_shift`); and outputs are given the timestamps of their own chunks just
as long as no chunk is submitted while 64 are outstanding (`pairing_iff`).
-/
import AmbiRTC.Assembly

namespace AmbiRTC.Assembly

open Runs

/-! ### The ring -/

/-- `TS_QUEUE_MASK` -/
def tsQueueMask : ℕ := tsQueueCapacity - 1

/-- A queue of timestamps. -/
structure TsQueue where
  values : ℕ → UInt32
  head : ℕ
  tail : ℕ
  size : ℕ

namespace TsQueue

/-- A new queue. -/
def new : TsQueue := ⟨fun _ => 0, 0, 0, 0⟩

/-- Leave out the oldest timestamp. -/
def dropHead (q : TsQueue) : TsQueue :=
  { q with head := (q.head + 1) &&& tsQueueMask, size := q.size - 1 }

/-- What `_pushDecoderTimestamp` does to the queue. -/
def push (q : TsQueue) (frameTs : UInt32) : TsQueue :=
  let q := if q.size = tsQueueCapacity then q.dropHead else q
  { values := Function.update q.values q.tail frameTs
    head := q.head
    tail := (q.tail + 1) &&& tsQueueMask
    size := q.size + 1 }

/-- `_shiftDecoderTimestamp`. -/
def shift (q : TsQueue) : TsQueue × ℤ :=
  if q.size = 0 then (q, -1) else (q.dropHead, (q.values q.head).toNat)

/-- The timestamps in the queue, oldest first. -/
def toList (q : TsQueue) : List UInt32 :=
  (List.range q.size).map fun i => q.values ((q.head + i) % tsQueueCapacity)

/-- Head, tail and size fit together. -/
structure Ok (q : TsQueue) : Prop where
  head_lt : q.head < tsQueueCapacity
  tail_eq : q.tail = (q.head + q.size) % tsQueueCapacity
  size_le : q.size ≤ tsQueueCapacity

theorem ok_new : Ok new := ⟨by decide, rfl, by decide⟩

variable {q : TsQueue}

theorem and_mask (n : ℕ) : n &&& tsQueueMask = n % tsQueueCapacity :=
  Nat.and_two_pow_sub_one_eq_mod n 6

@[simp] theorem length_toList (q : TsQueue) : q.toList.length = q.size := by simp [toList]

theorem Ok.dropHead (h : Ok q) (hsize : q.size ≠ 0) : Ok q.dropHead := by
  obtain ⟨hhead, htail, hle⟩ := h
  simp only [tsQueueCapacity] at hhead htail hle
  constructor <;> simp only [TsQueue.dropHead, and_mask, tsQueueCapacity] <;> omega

theorem toList_dropHead (hsize : q.size ≠ 0) :
    q.toList = q.values (q.head % tsQueueCapacity) :: q.dropHead.toList := by
  obtain ⟨n, hn⟩ := Nat.exists_eq_succ_of_ne_zero hsize
  unfold toList
  simp only [dropHead, and_mask, hn, Nat.succ_eq_add_one, Nat.add_sub_cancel,
    List.range_succ_eq_map, List.map_cons, List.map_map, Nat.add_zero, Nat.mod_add_mod]
  congr 1
  refine List.map_congr_left fun i _ => ?_
  rw [Function.comp_apply, Nat.succ_eq_add_one, Nat.add_right_comm, Nat.add_assoc]

theorem Ok.pushed (h : Ok q) (hsize : q.size < tsQueueCapacity) (frameTs : UInt32) :
    let q' : TsQueue := ⟨Function.update q.values q.tail frameTs, q.head,
      (q.tail + 1) &&& tsQueueMask, q.size + 1⟩
    Ok q' ∧ q'.toList = q.toList ++ [frameTs] := by
  obtain ⟨hhead, htail, hle⟩ := h
  simp only [tsQueueCapacity] at hhead htail hle hsize
  refine ⟨⟨hhead, ?_, hsize⟩, ?_⟩
  · simp only [and_mask, tsQueueCapacity]
    omega
  · simp only [toList, List.range_succ, List.map_append, List.map_cons, List.map_nil]
    congr 1
    · -- the other entries are at most 63 places before the tail
      refine List.map_congr_left fun i hi => Function.update_of_ne ?_ _ _
      have := List.mem_range.mp hi
      rw [htail, tsQueueCapacity]
      omega
    · rw [htail, tsQueueCapacity, Function.update_self]

/-- A push adds the timestamp at the end, and leaves out the oldest of 64. -/
theorem Ok.push (h : Ok q) (frameTs : UInt32) : Ok (q.push frameTs) ∧
    (q.push frameTs).toList
      = (if q.size = tsQueueCapacity then q.toList.tail else q.toList) ++ [frameTs] := by
  unfold TsQueue.push
  split
  case isTrue hfull =>
    have hne : q.size ≠ 0 := by
      rw [hfull]
      decide
    have hroom : q.dropHead.size < tsQueueCapacity := by
      show q.size - 1 < tsQueueCapacity
      rw [hfull]
      decide
    obtain ⟨hok, hlist⟩ := (h.dropHead hne).pushed hroom frameTs
    refine ⟨hok, hlist.trans ?_⟩
    rw [toList_dropHead hne, List.tail_cons]
  case isFalse hroom => exact h.pushed (lt_of_le_of_ne h.size_le hroom) frameTs

/-- A shift takes the oldest timestamp, if there is one. -/
theorem Ok.shift (h : Ok q) : Ok q.shift.1 ∧
    (q.toList = [] ∧ q.shift.1.toList = [] ∧ q.shift.2 = -1 ∨
      ∃ frameTs, q.toList = frameTs :: q.shift.1.toList ∧ q.shift.2 = frameTs.toNat) := by
  unfold TsQueue.shift
  split
  case isTrue hempty =>
    have hnil : q.toList = [] := List.length_eq_zero_iff.mp (q.length_toList.trans hempty)
    exact ⟨h, Or.inl ⟨hnil, hnil, rfl⟩⟩
  case isFalse hne =>
    refine ⟨h.dropHead hne, Or.inr ⟨q.values q.head, ?_, rfl⟩⟩
    rw [toList_dropHead hne, Nat.mod_eq_of_lt h.head_lt]

end TsQueue

/-! ### The assembler's queues -/

section Refines

variable {α : Type} {s : Rx α} {q : TsQueue} {c : Channel}

/-- A list of timestamps, as the assembler keeps it. -/
def stamps (q : TsQueue) : List ℕ := q.toList.map UInt32.toNat

/-- Pushing to the ring is pushing to the assembler's queue. -/
theorem tsQueues_push (h : q.Ok) (hs : s.tsQueues c = stamps q) (frameTs : UInt32) :
    (s.pushDecoderTimestamp c frameTs.toNat).tsQueues c = stamps (q.push frameTs) := by
  have hlen : (stamps q).length = q.size := by rw [stamps, List.length_map, q.length_toList]
  have hlt : frameTs.toNat % 2 ^ 32 = frameTs.toNat := Nat.mod_eq_of_lt frameTs.toNat_lt
  unfold Rx.pushDecoderTimestamp
  simp only [hs, hlen, hlt, Function.update_self]
  rw [stamps, stamps, (h.push frameTs).2]
  split <;> simp [List.map_tail]

/-- Taking from the ring is taking from the assembler's queue. -/
theorem tsQueues_shift (h : q.Ok) (hs : s.tsQueues c = stamps q) :
    (s.shiftDecoderTimestamp c).1.tsQueues c = stamps q.shift.1 ∧
      (s.shiftDecoderTimestamp c).2 = q.shift.2 := by
  unfold Rx.shiftDecoderTimestamp
  rcases h.shift.2 with ⟨hnil, hnil', hshift⟩ | ⟨frameTs, hcons, hshift⟩
  · rw [stamps, hnil, List.map_nil] at hs
    rw [hs, hshift, stamps, hnil']
    exact ⟨hs, rfl⟩
  · rw [stamps, hcons, List.map_cons] at hs
    rw [hs, hshift]
    exact ⟨by simp [stamps], rfl⟩

end Refines

/-! ### Decoders -/

namespace Pairing

/-- A decoder output: the timestamp of its chunk, and the one it is given. -/
structure Paired where
  chIdx : Channel
  chunkTs : UInt32
  frameTs : ℤ
  deriving DecidableEq

/-- An output is given the timestamp of its chunk, or dropped. -/
def Paired.Right (p : Paired) : Prop := p.frameTs = p.chunkTs.toNat ∨ p.frameTs = -1

instance : DecidablePred Paired.Right := fun _ => inferInstanceAs (Decidable (_ ∨ _))

/-- The queues of the client, the chunks its decoders have been given no output
of yet, and the outputs so far. -/
structure State where
  tsQueues : Channel → TsQueue
  totalPktsLost : ℕ
  outstanding : Channel → List UInt32
  paired : List Paired

/-- A client before the first chunk. -/
def start : State := ⟨fun _ => .new, 0, fun _ => [], []⟩

/-- What may happen next. -/
inductive Action where
  /-- a chunk is submitted to the decoder of a channel -/
  | submit (c : Channel) (frameTs : UInt32)
  /-- a decoder puts out its next chunk -/
  | output (c : Channel)
  deriving DecidableEq

/-- `_pushDecoderTimestamp`. -/
def pushDecoderTimestamp (s : State) (c : Channel) (frameTs : UInt32) : State :=
  { s with
    tsQueues := Function.update s.tsQueues c ((s.tsQueues c).push frameTs)
    totalPktsLost :=
      if (s.tsQueues c).size = tsQueueCapacity then s.totalPktsLost + 1 else s.totalPktsLost }

/-- A decoder gives one output for each chunk, in order. -/
def step (s : State) : Action → Option State
  | .submit c frameTs =>
    some { pushDecoderTimestamp s c frameTs with
      outstanding := Function.update s.outstanding c (s.outstanding c ++ [frameTs]) }
  | .output c =>
    match s.outstanding c with
    | [] => none
    | chunkTs :: rest =>
      let r := (s.tsQueues c).shift
      some { s with
        tsQueues := Function.update s.tsQueues c r.1
        outstanding := Function.update s.outstanding c rest
        paired := s.paired ++ [⟨c, chunkTs, r.2⟩] }

variable {s s' : State} {a : Action} {c : Channel}

/-! ### One step -/

/-- What an action does to the queue and the decoder of each channel. -/
inductive Stepped (s : State) : Action → State → Prop
  | submit {c : Channel} {frameTs : UInt32} {s' : State}
      (hqueue : s'.tsQueues = Function.update s.tsQueues c ((s.tsQueues c).push frameTs))
      (hout : s'.outstanding
        = Function.update s.outstanding c (s.outstanding c ++ [frameTs]))
      (hpaired : s'.paired = s.paired) : Stepped s (.submit c frameTs) s'
  | output {c : Channel} {chunkTs : UInt32} {rest : List UInt32} {s' : State}
      (hnext : s.outstanding c = chunkTs :: rest)
      (hqueue : s'.tsQueues = Function.update s.tsQueues c (s.tsQueues c).shift.1)
      (hout : s'.outstanding = Function.update s.outstanding c rest)
      (hpaired : s'.paired = s.paired ++ [⟨c, chunkTs, (s.tsQueues c).shift.2⟩]) :
      Stepped s (.output c) s'

theorem step_cases (h : step s a = some s') : Stepped s a s' := by
  cases a with
  | submit c frameTs =>
    obtain rfl := Option.some.inj h
    exact .submit rfl rfl rfl
  | output c =>
    rw [step] at h
    split at h
    · cases h
    · obtain rfl := Option.some.inj h
      exact .output ‹_› rfl rfl rfl

/-! ### In step -/

/-- Each queue has the timestamps of just the outstanding chunks. -/
structure InStep (s : State) : Prop where
  ok : ∀ c, (s.tsQueues c).Ok
  toList_eq : ∀ c, (s.tsQueues c).toList = s.outstanding c
  right : ∀ p ∈ s.paired, p.frameTs = p.chunkTs.toNat

/-- A chunk is only submitted while fewer than 64 are outstanding. -/
def Roomy (s : State) : Action → Prop
  | .submit c _ => (s.outstanding c).length < tsQueueCapacity
  | .output _ => True

instance (s : State) : DecidablePred (Roomy s)
  | .submit _ _ => inferInstanceAs (Decidable (_ < _))
  | .output _ => inferInstanceAs (Decidable True)

theorem inStep_start : InStep start := by
  refine ⟨fun _ => TsQueue.ok_new, fun _ => rfl, fun p hp => ?_⟩
  cases hp

theorem InStep.size_eq (hs : InStep s) (c : Channel) :
    (s.tsQueues c).size = (s.outstanding c).length := by
  rw [← hs.toList_eq, TsQueue.length_toList]

theorem InStep.kept (hs : InStep s) (hroom : Roomy s a) (h : step s a = some s') :
    InStep s' := by
  cases step_cases h with
  | @submit c frameTs _ hqueue hout hpaired =>
    obtain ⟨hok, hlist⟩ := (hs.ok c).push frameTs
    rw [if_neg (by rw [hs.size_eq]; exact hroom.ne), hs.toList_eq] at hlist
    refine ⟨fun d => ?_, fun d => ?_, hpaired ▸ hs.right⟩
    · rw [hqueue]
      rcases eq_or_ne d c with rfl | hd
      · rwa [Function.update_self]
      · rw [Function.update_of_ne hd]
        exact hs.ok d
    · rw [hqueue, hout]
      rcases eq_or_ne d c with rfl | hd
      · rwa [Function.update_self, Function.update_self]
      · rw [Function.update_of_ne hd, Function.update_of_ne hd]
        exact hs.toList_eq d
  | @output c chunkTs rest _ hnext hqueue hout hpaired =>
    obtain ⟨hok, ⟨hnil, -, -⟩ | ⟨frameTs, hcons, hshift⟩⟩ := (hs.ok c).shift
    · rw [hs.toList_eq, hnext] at hnil
      cases hnil
    -- the oldest timestamp is that of the oldest chunk
    rw [hs.toList_eq, hnext] at hcons
    obtain ⟨rfl, hrest⟩ := List.cons.inj hcons
    refine ⟨fun d => ?_, fun d => ?_, fun p hp => ?_⟩
    · rw [hqueue]
      rcases eq_or_ne d c with rfl | hd
      · rwa [Function.update_self]
      · rw [Function.update_of_ne hd]
        exact hs.ok d
    · rw [hqueue, hout]
      rcases eq_or_ne d c with rfl | hd
      · rw [Function.update_self, Function.update_self]
        exact hrest.symm
      · rw [Function.update_of_ne hd, Function.update_of_ne hd]
        exact hs.toList_eq d
    · rw [hpaired] at hp
      rcases List.mem_append.mp hp with hp | hp
      · exact hs.right p hp
      · obtain rfl := List.mem_singleton.mp hp
        exact hshift

/-! ### Out of step -/

/-- A chunk is only submitted after those of earlier frames. -/
def InOrder (s : State) : Action → Prop
  | .submit c frameTs => ∀ chunkTs ∈ s.outstanding c, chunkTs < frameTs
  | .output _ => True

/-- The outstanding chunks of a channel are in order. -/
structure Ordered (s : State) : Prop where
  ok : ∀ c, (s.tsQueues c).Ok
  sorted : ∀ c, (s.outstanding c).Pairwise (· < ·)

/-- An output has been given the timestamp of another chunk, or the next of some
channel will: its queue has lost the timestamps of the oldest chunks. -/
def Late (s : State) : Prop :=
  (∃ p ∈ s.paired, ¬p.Right) ∨
    ∃ c lost, lost ≠ [] ∧ (s.tsQueues c).toList ≠ [] ∧
      s.outstanding c = lost ++ (s.tsQueues c).toList

theorem ordered_start : Ordered start := ⟨fun _ => TsQueue.ok_new, fun _ => .nil⟩

theorem Ordered.kept (hs : Ordered s) (hord : InOrder s a) (h : step s a = some s') :
    Ordered s' := by
  cases step_cases h with
  | @submit c frameTs _ hqueue hout hpaired =>
    refine ⟨fun d => ?_, fun d => ?_⟩
    · rw [hqueue]
      rcases eq_or_ne d c with rfl | hd
      · rw [Function.update_self]
        exact ((hs.ok d).push frameTs).1
      · rw [Function.update_of_ne hd]
        exact hs.ok d
    · rw [hout]
      rcases eq_or_ne d c with rfl | hd
      · rw [Function.update_self]
        refine List.pairwise_append.mpr ⟨hs.sorted d, List.pairwise_singleton _ _, ?_⟩
        intro u hu v hv
        -- the chunk submitted is later than those in the decoder
        obtain rfl := List.mem_singleton.mp hv
        exact hord u hu
      · rw [Function.update_of_ne hd]
        exact hs.sorted d
  | @output c chunkTs rest _ hnext hqueue hout hpaired =>
    refine ⟨fun d => ?_, fun d => ?_⟩
    · rw [hqueue]
      rcases eq_or_ne d c with rfl | hd
      · rw [Function.update_self]
        exact (hs.ok d).shift.1
      · rw [Function.update_of_ne hd]
        exact hs.ok d
    · rw [hout]
      rcases eq_or_ne d c with rfl | hd
      · rw [Function.update_self]
        have hsorted := hs.sorted d
        rw [hnext] at hsorted
        exact hsorted.of_cons
      · rw [Function.update_of_ne hd]
        exact hs.sorted d

/-- The 65th outstanding chunk puts its channel out of step. -/
theorem InStep.late (hs : InStep s) (hroom : ¬Roomy s a) (h : step s a = some s') : Late s' := by
  cases step_cases h with
  | @submit c frameTs _ hqueue hout hpaired =>
    have hfull : (s.tsQueues c).size = tsQueueCapacity :=
      le_antisymm (hs.ok c).size_le (by rw [hs.size_eq]; exact not_lt.mp hroom)
    obtain ⟨-, hlist⟩ := (hs.ok c).push frameTs
    rw [if_pos hfull, hs.toList_eq] at hlist
    have hne : s.outstanding c ≠ [] := by
      intro hnil
      rw [hs.size_eq, hnil] at hfull
      cases hfull
    obtain ⟨oldest, rest, hcons⟩ := List.exists_cons_of_ne_nil hne
    refine Or.inr ⟨c, [oldest], by simp, ?_, ?_⟩
    · rw [hqueue, Function.update_self, hlist]
      simp
    · rw [hqueue, hout, Function.update_self, Function.update_self, hlist, hcons]
      rfl
  | output => exact absurd trivial hroom

/-- An output of a channel that is out of step is given a later timestamp. -/
theorem Ordered.mispaired (hs : Ordered s) {lost : List UInt32} (hlost : lost ≠ [])
    (hne : (s.tsQueues c).toList ≠ [])
    (hout : s.outstanding c = lost ++ (s.tsQueues c).toList)
    (h : step s (.output c) = some s') : ∃ p ∈ s'.paired, ¬p.Right := by
  cases step_cases h with
  | @output _ chunkTs rest _ hnext hqueue _ hpaired =>
    obtain ⟨-, ⟨hnil, -, -⟩ | ⟨frameTs, hcons, hshift⟩⟩ := (hs.ok c).shift
    · exact absurd hnil hne
    obtain ⟨oldest, others, rfl⟩ := List.exists_cons_of_ne_nil hlost
    have hsorted := hs.sorted c
    rw [hout, hcons] at hsorted
    have hlt : oldest < frameTs := List.rel_of_pairwise_cons hsorted (by simp)
    rw [hout] at hnext
    obtain rfl := (List.cons.inj hnext).1
    refine ⟨⟨c, oldest, frameTs.toNat⟩, by rw [hpaired, hshift]; simp, ?_⟩
    have hlt' := UInt32.lt_iff_toNat_lt.mp hlt
    rintro (heq | heq) <;> simp only at heq <;> omega

theorem Late.kept (hs : Ordered s) (hlate : Late s) (h : step s a = some s') : Late s' := by
  rcases hlate with ⟨p, hp, hwrong⟩ | ⟨c, lost, hlost, hne, hout⟩
  -- a wrong pair stays among the pairs
  · have hmem : p ∈ s'.paired := by
      cases step_cases h with
      | submit _ _ hpaired => rwa [hpaired]
      | output _ _ _ hpaired =>
        rw [hpaired]
        exact List.mem_append_left _ hp
    exact Or.inl ⟨p, hmem, hwrong⟩
  by_cases hother : a = .output c
  -- the next output of the channel takes a timestamp that is not its own
  · subst hother
    exact Or.inl (hs.mispaired hlost hne hout h)
  cases step_cases h with
  | @submit d frameTs _ hqueue hout' hpaired =>
    rcases eq_or_ne c d with rfl | hd
    · -- the timestamp comes last on both sides, and one more may be lost
      obtain ⟨-, hlist⟩ := (hs.ok c).push frameTs
      obtain ⟨oldest, rest, hcons⟩ := List.exists_cons_of_ne_nil hne
      refine Or.inr ⟨c, if (s.tsQueues c).size = tsQueueCapacity then lost ++ [oldest] else lost,
        ?_, ?_, ?_⟩
      · split <;> simp [hlost]
      · rw [hqueue, Function.update_self, hlist]
        simp
      · rw [hqueue, hout', Function.update_self, Function.update_self, hlist, hout, hcons]
        split <;> simp
    · refine Or.inr ⟨c, lost, hlost, ?_, ?_⟩
      · rwa [hqueue, Function.update_of_ne hd]
      · rwa [hqueue, hout', Function.update_of_ne hd, Function.update_of_ne hd]
  | @output d chunkTs rest _ hnext hqueue hout' hpaired =>
    have hd : c ≠ d := by
      rintro rfl
      exact hother rfl
    refine Or.inr ⟨c, lost, hlost, ?_, ?_⟩
    · rwa [hqueue, Function.update_of_ne hd]
    · rwa [hqueue, hout', Function.update_of_ne hd, Function.update_of_ne hd]

/-- In step to the end, or late from the first chunk without room. -/
theorem roomy_or_late {as : List Action} (h : Run step s as s') (hord : Along step InOrder s as)
    (hs : InStep s) (hsort : Ordered s) : Along step Roomy s as ∨ Ordered s' ∧ Late s' := by
  induction h with
  | nil s => exact Or.inl (along_nil _ s)
  | @cons s s₁ s' a as ha hrun ih =>
    have hsort₁ := hsort.kept hord.head ha
    by_cases hroom : Roomy s a
    · rcases ih (hord.tail ha) (hs.kept hroom ha) hsort₁ with hroomy | hlate
      · refine Or.inl (along_cons hroom fun s₂ h₂ => ?_)
        obtain rfl := Option.some.inj (ha.symm.trans h₂)
        exact hroomy
      · exact Or.inr hlate
    · refine Or.inr (hrun.invariant_of_along (I := fun s => Ordered s ∧ Late s)
        (fun t b t' hinv hb hstep => ⟨hinv.1.kept hb hstep, hinv.2.kept hinv.1 hstep⟩)
        (hord.tail ha) ⟨hsort₁, hs.late hroom ha⟩)

/-! ### The pairing -/

/-- **When outputs are given their own timestamps.**  In a run in which no chunk
is submitted while 64 of its channel are outstanding, every output is given the
timestamp of its own chunk; and if the chunks of each channel are submitted in
order, in no other run are the outputs so far and those still to come all given
their own or none. -/
theorem pairing_iff {as : List Action} (h : Run step start as s) :
    (Along step Roomy start as → ∀ p ∈ s.paired, p.frameTs = p.chunkTs.toNat) ∧
      (Along step InOrder start as →
        (∀ bs s', (∀ b ∈ bs, ∃ c, b = .output c) → Run step s bs s' → ∀ p ∈ s'.paired, p.Right) →
        Along step Roomy start as) := by
  refine ⟨fun hroom => ?_, fun hord hright => ?_⟩
  · exact (h.invariant_of_along (fun _ _ _ hs hroom h => hs.kept hroom h) hroom inStep_start).right
  · rcases roomy_or_late h hord inStep_start ordered_start with hroom | ⟨hsort, hlate⟩
    · exact hroom
    exfalso
    rcases hlate with ⟨p, hp, hwrong⟩ | ⟨c, lost, hlost, hne, hout⟩
    · exact hwrong (hright [] s (by simp) (.nil s) p hp)
    · obtain ⟨oldest, others, rfl⟩ := List.exists_cons_of_ne_nil hlost
      obtain ⟨s', hs'⟩ : ∃ s', step s (.output c) = some s' := by
        rw [step, hout]
        exact ⟨_, rfl⟩
      obtain ⟨p, hp, hwrong⟩ := hsort.mispaired hlost hne hout hs'
      exact hwrong (hright [.output c] s' (by simp) (.cons hs' (.nil s')) p hp)

/-- Two channels, one a frame behind the other. -/
def skewed (c d : Channel) : List Action :=
  [.submit c 960, .submit c 1920, .submit d 960, .output c, .output d, .output c]

theorem pairing_iff_skewed : ∃ s, Run step start (skewed 0 1) s ∧
    s.paired = [⟨0, 960, 960⟩, ⟨1, 960, 960⟩, ⟨0, 1920, 1920⟩] ∧
    ∀ p ∈ s.paired, p.frameTs = p.chunkTs.toNat := by
  obtain ⟨s, hs, hpaired⟩ := (Option.any_eq_true _ _).mp
    (by decide : (exec step start (skewed 0 1)).any (fun s =>
      s.paired = [⟨0, 960, 960⟩, ⟨1, 960, 960⟩, ⟨0, 1920, 1920⟩]) = true)
  refine ⟨s, .of_exec hs, of_decide_eq_true hpaired, (pairing_iff (.of_exec hs)).1 ?_⟩
  exact along_of_check (p := fun s a => decide (Roomy s a)) (fun _ _ => of_decide_eq_true)
    (by decide)

/-- A decoder that has been given 65 frames of 10 ms, and puts out the first. -/
def overrun (c : Channel) : List Action :=
  (List.range 65).map (fun i => .submit c (UInt32.ofNat (480 * i))) ++ [.output c]

/-- It is given the timestamp of the second. -/
theorem overrun_mispaired : ∃ s, Run step start (overrun 0) s ∧ ∃ p ∈ s.paired, ¬p.Right := by
  obtain ⟨s, hs, hpaired⟩ := (Option.any_eq_true _ _).mp
    (by decide +kernel :
      (exec step start (overrun 0)).any (fun s => s.paired = [⟨0, 0, 480⟩]) = true)
  refine ⟨s, .of_exec hs, ⟨0, 0, 480⟩, ?_, by decide⟩
  rw [of_decide_eq_true hpaired]
  exact List.mem_singleton_self _

end Pairing

end AmbiRTC.Assembly
