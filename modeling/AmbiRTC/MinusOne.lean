/-
AmbiRTC/MinusOne.lean

Everyone hears everyone else.  The sum of a tick is kept modulo `2^32`, and
may wrap; what is submitted to a member is the sum less its own frame, taken
modulo `2^32` again, and that difference is the sum over the other members,
which fits in 32 bits for a roster of at most 65536.  Only then is it clamped.

Main results: `tick_minusOne` (one tick, from whatever the buffers hold) and
`minusOne_mix` (every run of ticks).
-/
import AmbiRTC.Mix
import Mathlib.Algebra.BigOperators.Group.List.Basic
import Mathlib.Data.List.InsertIdx
import Mathlib.Data.List.Perm.Basic
import Mathlib.Tactic.Linarith
import Mathlib.Tactic.Ring

namespace AmbiRTC

open Runs

variable {C F : ℕ}

/-! ### What the mix is for -/

/-- What a member adds to the mix at one sample: its frame, or silence. -/
def Participant.contribution (m : Participant C F) (c : Fin C) (s : Fin F) : ℤ :=
  if m.ready then (m.input[c][s]).toInt else 0

/-- The exact sum over some members. -/
def exactSum (members : List (Participant C F)) (c : Fin C) (s : Fin F) : ℤ :=
  (members.map fun m => m.contribution c s).sum

@[simp] theorem exactSum_nil (c : Fin C) (s : Fin F) :
    exactSum ([] : List (Participant C F)) c s = 0 := rfl

@[simp] theorem exactSum_cons (m : Participant C F) (members : List (Participant C F))
    (c : Fin C) (s : Fin F) :
    exactSum (m :: members) c s = m.contribution c s + exactSum members c s :=
  List.sum_cons

/-- The sum of all members but the one at place `i`. -/
def othersSum (members : List (Participant C F)) (i : ℕ) (c : Fin C) (s : Fin F) : ℤ :=
  exactSum (members.eraseIdx i) c s

/-- The range of an `int16`, as a clamp. -/
def clamp16 (x : ℤ) : ℤ := max (-32768) (min 32767 x)

/-- One frame for each member, in the order of the roster: the clamped sum of
the others. -/
structure MinusOneMix (members : List (Participant C F)) (frameTs : ℕ)
    (submitted : List (Submission C F)) : Prop where
  length_eq : submitted.length = members.length
  member_eq : ∀ i (h : i < submitted.length) (h' : i < members.length),
    submitted[i].member = members[i].id
  frameTs_eq : ∀ x ∈ submitted, x.frameTs.toNat = frameTs
  isRec_eq : ∀ x ∈ submitted, x.isRec = members.any Participant.isRecording
  pcm_eq : ∀ i (h : i < submitted.length) (c : Fin C) (s : Fin F),
    (submitted[i].pcm[c][s]).toInt = clamp16 (othersSum members i c s)

/-! ### Words -/

/-- Clamping an `int32` to `int16`. -/
theorem toInt_saturate (v : Int32) : (saturate v).toInt = clamp16 v.toInt := by
  unfold saturate clamp16
  split
  case isTrue hgt =>
    have : (32767 : ℤ) < v.toInt := Int32.lt_iff_toInt_lt.mp hgt
    show (32767 : ℤ) = _
    omega
  case isFalse hle =>
    have hle' : v.toInt ≤ 32767 := not_lt.mp fun h => hle (Int32.lt_iff_toInt_lt.mpr h)
    split
    case isTrue hlt =>
      have : v.toInt < -32768 := Int32.lt_iff_toInt_lt.mp hlt
      show (-32768 : ℤ) = _
      omega
    case isFalse hge =>
      have hge' : -32768 ≤ v.toInt := not_lt.mp fun h => hge (Int32.lt_iff_toInt_lt.mpr h)
      rw [Int32.toInt_toInt16, Int.bmod_eq_of_le (by norm_num; omega) (by norm_num; omega)]
      omega

theorem contribution_bounds (m : Participant C F) (c : Fin C) (s : Fin F) :
    -32768 ≤ m.contribution c s ∧ m.contribution c s ≤ 32767 := by
  unfold Participant.contribution
  split
  · exact ⟨Int16.le_toInt _, Int.lt_add_one_iff.mp (Int16.toInt_lt _)⟩
  · omega

/-- A sum of samples grows by at most an `int16` a member. -/
theorem exactSum_bounds (members : List (Participant C F)) (c : Fin C) (s : Fin F) :
    -(32768 * members.length : ℤ) ≤ exactSum members c s ∧
      exactSum members c s ≤ 32767 * members.length := by
  induction members with
  | nil => simp
  | cons m members ih =>
    have hm := contribution_bounds m c s
    rw [exactSum_cons, List.length_cons]
    push_cast
    omega

theorem exactSum_eq_add_othersSum {members : List (Participant C F)} {i : ℕ}
    (h : i < members.length) (c : Fin C) (s : Fin F) :
    exactSum members c s = members[i].contribution c s + othersSum members i c s := by
  -- the roster is its member `i` and the others, in another order
  have hperm := (List.getElem_cons_eraseIdx_perm h).map fun m => m.contribution c s
  rw [othersSum, ← exactSum_cons]
  exact hperm.sum_eq.symm

/-- The others of a roster of at most 65536 add up inside 32 bits. -/
theorem othersSum_bounds {members : List (Participant C F)} (hsize : members.length ≤ 65536)
    {i : ℕ} (h : i < members.length) (c : Fin C) (s : Fin F) :
    -2 ^ 31 ≤ othersSum members i c s ∧ othersSum members i c s < 2 ^ 31 := by
  have hlen : (members.eraseIdx i).length ≤ 65535 := by
    rw [List.length_eraseIdx_of_lt h]
    omega
  obtain ⟨hlo, hhi⟩ := exactSum_bounds (members.eraseIdx i) c s
  unfold othersSum
  constructor <;> norm_num <;> omega

/-! ### Accumulating -/

@[simp] theorem getElem_clear {α : Type} [Zero α] (buf : Frame α C F) (c : Fin C) (s : Fin F) :
    (clear buf)[c][s] = 0 := by
  simp [clear]

@[simp] theorem getElem_addInto (acc : Frame Int32 C F) (buf : Frame Int16 C F) (c : Fin C)
    (s : Fin F) : (addInto acc buf)[c][s] = acc[c][s] + (buf[c][s]).toInt32 := by
  simp [addInto]

@[simp] theorem getElem_subtractAndSaturate (acc : Frame Int32 C F) (own out : Frame Int16 C F)
    (c : Fin C) (s : Fin F) :
    (subtractAndSaturate acc own out)[c][s] = saturate (acc[c][s] - (own[c][s]).toInt32) := by
  simp [subtractAndSaturate]

/-- An input buffer holds what its member contributes. -/
def Holds (m : Participant C F) (buf : Frame Int16 C F) : Prop :=
  ∀ (c : Fin C) (s : Fin F), (buf[c][s]).toInt = m.contribution c s

/-- After the member loop the first buffers hold the contributions, in roster
order, and the accumulator has grown by their sum, modulo `2^32`. -/
theorem accumulateFrom_spec {members : List (Participant C F)} {inbufs : List (Frame Int16 C F)}
    {acc : Frame Int32 C F} (hlen : members.length ≤ inbufs.length) :
    ∃ ready own rest acc', accumulateFrom members inbufs acc = some (ready, own ++ rest, acc') ∧
      List.Forall₂ Holds members own ∧
      ∀ (c : Fin C) (s : Fin F), (acc'[c][s]).toInt
        = ((acc[c][s]).toInt + exactSum members c s).bmod (2 ^ 32) := by
  induction members generalizing inbufs acc with
  | nil =>
    refine ⟨0, [], inbufs, acc, rfl, .nil, fun c s => ?_⟩
    rw [exactSum_nil, add_zero]
    exact (Int32.toInt_bmod _).symm
  | cons m members ih =>
    obtain ⟨buf, inbufs, rfl⟩ := List.exists_cons_of_length_pos (Nat.lt_of_lt_of_le (by simp) hlen)
    simp only [List.length_cons, Nat.add_le_add_iff_right] at hlen
    by_cases hready : m.ready = true
    · -- ready: nothing is left of what an earlier tick put into the buffer
      obtain ⟨ready, own, rest, acc', hrun, hown, hacc⟩ :=
        @ih inbufs (addInto acc (m.readInputFrame buf)) hlen
      have hinput := m.overwrites hready buf
      refine ⟨ready + 1, m.input :: own, rest, acc', ?_, .cons ?_ hown, fun c s => ?_⟩
      · rw [accumulateFrom, if_pos hready, hrun, hinput]
        rfl
      · intro c s
        rw [Participant.contribution, if_pos hready]
      · rw [hacc c s, hinput, getElem_addInto, Int32.toInt_add, Int16.toInt_toInt32,
          Int.bmod_add_bmod, exactSum_cons, Participant.contribution, if_pos hready, add_assoc]
    · -- not ready: whatever was written into the buffer is cleared again
      obtain ⟨ready, own, rest, acc', hrun, hown, hacc⟩ := @ih inbufs acc hlen
      have hnone : ∀ (c : Fin C) (s : Fin F), m.contribution c s = 0 := fun c s => if_neg hready
      refine ⟨ready, clear (m.readInputFrame buf) :: own, rest, acc', ?_, .cons ?_ hown,
        fun c s => ?_⟩
      · rw [accumulateFrom, if_neg hready, hrun]
        rfl
      · intro c s
        rw [getElem_clear, hnone]
        rfl
      · rw [hacc c s, exactSum_cons, hnone, zero_add]

theorem accumulate_spec {members : List (Participant C F)} {inbufs : List (Frame Int16 C F)}
    {acc : Frame Int32 C F} (hlen : members.length ≤ inbufs.length) :
    ∃ ready own rest acc', accumulate members inbufs acc = some (ready, own ++ rest, acc') ∧
      List.Forall₂ Holds members own ∧
      ∀ (c : Fin C) (s : Fin F), (acc'[c][s]).toInt
        = (exactSum members c s).bmod (2 ^ 32) := by
  obtain ⟨ready, own, rest, acc', hrun, hown, hacc⟩ :=
    @accumulateFrom_spec C F members inbufs (clear acc) hlen
  refine ⟨ready, own, rest, acc', hrun, hown, fun c s => ?_⟩
  rw [hacc c s, getElem_clear, Int32.toInt_zero, zero_add]

/-! ### Submitting -/

/-- A submission made to `m` out of the accumulator `acc`. -/
structure SubmittedTo (acc : Frame Int32 C F) (mixTs : UInt32) (isRec : Bool)
    (m : Participant C F) (x : Submission C F) : Prop where
  member_eq : x.member = m.id
  frameTs_eq : x.frameTs = mixTs
  isRec_eq : x.isRec = isRec
  pcm_eq : ∀ (c : Fin C) (s : Fin F), (x.pcm[c][s]).toInt
    = clamp16 (((acc[c][s]).toInt - m.contribution c s).bmod (2 ^ 32))

/-- The submit loop makes one submission for each member. -/
theorem submitAll_spec {members : List (Participant C F)} {own rest : List (Frame Int16 C F)}
    (hown : List.Forall₂ Holds members own) (acc : Frame Int32 C F) (mixTs : UInt32)
    (isRec : Bool) (out : Frame Int16 C F) :
    ∃ out' submitted,
      submitAll acc mixTs isRec members (own ++ rest) out = some (out', submitted) ∧
      List.Forall₂ (SubmittedTo acc mixTs isRec) members submitted := by
  induction hown generalizing out with
  | nil => exact ⟨out, [], rfl, .nil⟩
  | @cons m buf members own hm _ ih =>
    obtain ⟨out', submitted, hrun, hsub⟩ := ih (subtractAndSaturate acc buf out)
    refine ⟨out', ⟨m.id, subtractAndSaturate acc buf out, mixTs, isRec⟩ :: submitted, ?_,
      .cons ?_ hsub⟩
    · rw [List.cons_append, submitAll, hrun]
      rfl
    · refine ⟨rfl, rfl, rfl, fun c s => ?_⟩
      rw [getElem_subtractAndSaturate, toInt_saturate, Int32.toInt_sub, Int16.toInt_toInt32, hm c s]

/-! ### One tick -/

theorem length_growInbufs (members : List (Participant C F)) (inbufs : List (Frame Int16 C F)) :
    members.length ≤ (growInbufs members inbufs).length := by
  rw [growInbufs, List.length_append, List.length_replicate]
  omega

/-- **One tick.**  Whatever the accumulator, the output frame and the input
buffers hold, everyone is sent the clamped sum of the others. -/
theorem tick_minusOne (k : MixClock C F) {members : List (Participant C F)}
    (hsize : members.length ≤ 65536) :
    ∃ k' submitted, k.tick members = some (k', submitted) ∧
      MinusOneMix members k.mixTs.toNat submitted ∧
      k'.mixTs = if members = [] then k.mixTs else k.mixTs + UInt32.ofNat F := by
  unfold MixClock.tick
  by_cases hempty : members = []
  · subst hempty
    exact ⟨k, [], rfl, ⟨rfl, by simp, by simp, by simp, by simp⟩, rfl⟩
  have hpos : members.length > 0 := List.length_pos_iff.mpr hempty
  obtain ⟨ready, own, rest, acc, hacc, hown, htotal⟩ :=
    @accumulate_spec C F members _ k.acc (length_growInbufs members k.inbufs)
  obtain ⟨out, submitted, hsub, hall⟩ :=
    @submitAll_spec C F members own rest hown acc k.mixTs (members.any Participant.isRecording)
      k.out
  rw [if_pos hpos, if_neg hempty, hacc]
  simp only [Option.bind_eq_bind, Option.bind_some, hsub, Option.pure_def]
  refine ⟨_, submitted, rfl, ?_, rfl⟩
  have hlen := hall.length_eq
  have hget := List.forall₂_iff_get.mp hall
  simp only [List.get_eq_getElem] at hget
  refine ⟨hlen.symm, fun i h h' => (hget.2 i h' h).member_eq, fun x hx => ?_, fun x hx => ?_,
    fun i h c s => ?_⟩
  · obtain ⟨i, h, rfl⟩ := List.getElem_of_mem hx
    rw [(hget.2 i (by omega) h).frameTs_eq]
  · obtain ⟨i, h, rfl⟩ := List.getElem_of_mem hx
    exact (hget.2 i (by omega) h).isRec_eq
  · have h' : i < members.length := by omega
    have hothers := othersSum_bounds hsize h' c s
    have hpcm := (hget.2 i h' h).pcm_eq c s
    -- wrapping twice is harmless, the difference itself does not wrap
    rw [hpcm, htotal, Int.sub_eq_add_neg, Int.bmod_add_bmod, exactSum_eq_add_othersSum h' c s,
      show members[i].contribution c s + othersSum members i c s + -members[i].contribution c s
        = othersSum members i c s by ring,
      Int.bmod_eq_of_le (by norm_num; omega) (by norm_num; omega)]

/-! ### Runs -/

/-- How many of the ticks found somebody in the room. -/
def nonEmptyTicks (rosters : List (List (Participant C F))) : ℕ :=
  rosters.countP fun members => members ≠ []

theorem nonEmptyTicks_append (rosters : List (List (Participant C F)))
    (members : List (Participant C F)) :
    nonEmptyTicks (rosters ++ [members])
      = nonEmptyTicks rosters + if members = [] then 0 else 1 := by
  rw [nonEmptyTicks, List.countP_append, ← nonEmptyTicks, List.countP_singleton]
  by_cases h : members = [] <;> simp [h]

/-- What the ticks have submitted: minus-one mixes on the mix timeline. -/
structure MixedSoFar (rosters : List (List (Participant C F))) (x : Mixing C F) : Prop where
  mixTs_eq : x.clock.mixTs.toNat = F * nonEmptyTicks rosters % 2 ^ 32
  length_eq : x.submitted.length = rosters.length
  mixed : ∀ n (h : n < rosters.length) (h' : n < x.submitted.length),
    MinusOneMix rosters[n] (F * nonEmptyTicks (rosters.take n) % 2 ^ 32) x.submitted[n]

/-- **One tick of a run.** -/
theorem mixedSoFar_step {rosters : List (List (Participant C F))} {x x' : Mixing C F}
    {members : List (Participant C F)} (hx : MixedSoFar rosters x)
    (hsize : members.length ≤ 65536) (hstep : x.step members = some x') :
    MixedSoFar (rosters ++ [members]) x' := by
  obtain ⟨k', submitted, htick, hmix, hts⟩ := tick_minusOne x.clock hsize
  rw [Mixing.step, htick] at hstep
  obtain rfl := Option.some.inj hstep
  have hlen := hx.length_eq
  refine ⟨?_, by simp [hlen], fun n h h' => ?_⟩
  · rw [hts, nonEmptyTicks_append]
    split
    · -- a tick on an empty roster leaves the timeline where it is
      rw [hx.mixTs_eq, Nat.add_zero]
    · rw [UInt32.toNat_add, hx.mixTs_eq, UInt32.toNat_ofNat', Nat.mul_add, Nat.mul_one,
        ← Nat.add_mod]
  · simp only [List.getElem_append, hlen]
    split
    case isTrue hold =>
      rw [List.take_append_of_le_length (by omega)]
      exact hx.mixed n hold (by omega)
    case isFalse hnew =>
      simp only [List.length_append, List.length_singleton] at h
      obtain rfl : n = rosters.length := by omega
      simp only [Nat.sub_self, List.getElem_cons_zero, List.take_left]
      rw [← hx.mixTs_eq]
      exact hmix

/-- **The minus-one mix.**  Every run of ticks goes through, and each tick
submits to each member the clamped exact sum of the other members, on a timeline
that advances by one frame at every tick on a non-empty roster. -/
theorem minusOne_mix (k : MixClock C F) (hstart : k.mixTs = 0)
    (rosters : List (List (Participant C F))) (hsize : ∀ r ∈ rosters, r.length ≤ 65536) :
    ∃ x, Run Mixing.step ⟨k, []⟩ rosters x ∧ MixedSoFar rosters x := by
  have hrun : ∀ (x : Mixing C F) (rs : List (List (Participant C F))),
      (∀ r ∈ rs, r.length ≤ 65536) → ∃ x', Run Mixing.step x rs x' := by
    intro x rs hrs
    induction rs generalizing x with
    | nil => exact ⟨x, .nil x⟩
    | cons r rs ih =>
      obtain ⟨k', submitted, htick, -, -⟩ := tick_minusOne x.clock (hrs r (by simp))
      obtain ⟨x', hx'⟩ := ih ⟨k', x.submitted ++ [submitted]⟩ fun r' hr' => hrs r' (by simp [hr'])
      exact ⟨x', .cons (by rw [Mixing.step, htick]; rfl) hx'⟩
  obtain ⟨x, hx⟩ := hrun ⟨k, []⟩ rosters hsize
  have hempty : MixedSoFar [] (⟨k, []⟩ : Mixing C F) :=
    ⟨by rw [hstart]; rfl, rfl, fun n h => absurd h (Nat.not_lt_zero n)⟩
  refine ⟨x, hx, ?_⟩
  have hall := hx.invariant_history (I := MixedSoFar) (P := fun _ r => r.length ≤ 65536)
    (fun _ _ _ _ hy hr hstep => mixedSoFar_step hy hr hstep)
    (fun as₁ r as₂ _ has _ => hsize r (by rw [has]; simp)) hempty
  rwa [List.nil_append] at hall

/-- A member of a room with one channel and one sample a frame, always ready. -/
def steadyMember (id : String) (v : Int16) : Participant 1 1 where
  id := id
  isRecording := false
  input := Vector.replicate 1 (Vector.replicate 1 v)
  ready := true
  readInputFrame := fun _ => Vector.replicate 1 (Vector.replicate 1 v)
  overwrites := fun _ _ => rfl

/-- Three members, loud enough that the mix of two of them is clamped. -/
theorem minusOne_mix_trio :
    ∃ x, Run Mixing.step ⟨newMixClock 1 1, []⟩
        [[steadyMember "a" 20000, steadyMember "b" 30000, steadyMember "c" 20000]] x ∧
      MixedSoFar [[steadyMember "a" 20000, steadyMember "b" 30000, steadyMember "c" 20000]] x :=
  minusOne_mix (newMixClock 1 1) rfl _ fun r hr => by
    rw [List.mem_singleton.mp hr]
    decide

end AmbiRTC
