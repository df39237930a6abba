/-
AmbiRTC/JitterPointers.lean

The pointers of the jitter buffer over whole runs.  From the first frame on they
keep their order, the read pointer stays on the frame grid and within the
latency cap of the frontier (`Anchored`, which every call keeps), and neither of
them ever moves back.

Main result: all of it holds after every sequence of calls on a buffer with room
for the prebuffer and three frames, an underrun moves nothing, and the snap does
not skip the frame that caused it (`pointers_of_run`).
-/
import AmbiRTC.JitterSteps

namespace AmbiRTC

open Runs

namespace JitterBuffer

variable {j j' : JitterBuffer}

/-! ### Runs -/

theorem Sound.run {as : List Call} (h : Sound j) (hrun : Run JitterBuffer.call j as j') :
    Sound j' ∧ SameSizes j j' := by
  refine hrun.invariant (I := fun k => Sound k ∧ SameSizes j k) ?_ ⟨h, .refl j⟩
  rintro k a k' ⟨hk, hsizes⟩ hcall
  obtain ⟨hk', hsizes'⟩ := hk.call hcall
  exact ⟨hk', hsizes.trans hsizes'⟩

/-- Neither pointer has moved back. -/
structure Forward (j j' : JitterBuffer) : Prop where
  anchored : Anchored j'
  readTs_le : j.readTs ≤ j'.readTs
  writeTs_le : j.writeTs ≤ j'.writeTs

theorem Forward.refl (h : Anchored j) : Forward j j := ⟨h, le_rfl, le_rfl⟩

theorem Forward.trans {j'' : JitterBuffer} (h : Forward j j') (h' : Forward j' j'') :
    Forward j j'' :=
  ⟨h'.anchored, h.readTs_le.trans h'.readTs_le, h.writeTs_le.trans h'.writeTs_le⟩

/-- The snap only goes ahead: the cap is no less than the depth it drains to. -/
theorem Placed.forward {ts chIdx : ℤ} {pcm : List Int16} (hp : Placed j j' ts chIdx pcm)
    (hw : WellSized j) : Forward j j' := by
  have hdepth := hw.maxDepth_bounds
  have hge := (boundary_spec j.initTs hw.frameSize_pos
    (j'.writeTs - (j.prebuffer + 2 * j.frameSize))).1
  refine ⟨hp.anchored, ?_, ?_⟩
  · rw [hp.readTs_eq]
    split <;> omega
  · rw [hp.writeTs_eq]
    exact le_max_left _ _

theorem TakenFrame.forward {out out' : List (List Int16)} (ht : TakenFrame j j' out out')
    (ha : Anchored j) : Forward j j' := by
  refine ⟨ht.anchored ha, ?_, ht.writeTs_eq.ge⟩
  rw [ht.readTs_eq]
  omega

/-- **A call moves no pointer back**, once there is an anchor. -/
theorem Sound.forward_call {a : Call} (h : Sound j) (ha : Anchored j)
    (hcall : j.call a = some j') : Forward j j' := by
  cases a with
  | write frameTs chIdx pcm =>
    rcases writeChannel_cases h frameTs chIdx pcm with ⟨-, hw⟩ | ⟨-, k, hw, hp⟩
    · obtain rfl := Option.some.inj (hcall.symm.trans hw)
      exact .refl ha
    · obtain rfl := Option.some.inj (hcall.symm.trans hw)
      rw [anchor_of_anchored ha] at hp
      exact hp.forward h.toWellSized
  | read out =>
    simp only [JitterBuffer.call] at hcall
    rcases readFrame_cases h out with hr | hr | ⟨k, out', hr, ht⟩
    · rw [hr] at hcall
      obtain rfl := Option.some.inj hcall
      exact .refl ha
    · rw [hr] at hcall
      obtain rfl := Option.some.inj hcall
      exact ⟨⟨ha.1, ha.2, ha.3, ha.4, ha.5⟩, le_rfl, le_rfl⟩
    · rw [hr] at hcall
      obtain rfl := Option.some.inj hcall
      exact ht.forward ha

theorem Sound.forward_run {as : List Call} (h : Sound j) (ha : Anchored j)
    (hrun : Run JitterBuffer.call j as j') : Forward j j' := by
  have hinv : Sound j' ∧ Forward j j' := by
    refine hrun.invariant (I := fun k => Sound k ∧ Forward j k) ?_ ⟨h, .refl ha⟩
    rintro k a k' ⟨hk, hforward⟩ hcall
    exact ⟨(hk.call hcall).1, hforward.trans (hk.forward_call hforward.anchored hcall)⟩
  exact hinv.2

/-! ### The snap -/

@[simp] theorem overflows_anchor (j : JitterBuffer) (ts : ℤ) :
    (j.anchor ts).overflows = j.overflows := by
  unfold anchor
  split <;> rfl

/-- Only a snap counts an overflow, and it has found the buffer too deep. -/
theorem snapped_of_overflows {frameTs : UInt32} {chIdx : ℤ} {pcm : List Int16}
    (hwrite : j.writeChannel frameTs chIdx pcm = some j') (hne : j'.overflows ≠ j.overflows) :
    (j.anchor frameTs.toNat).maxDepth < j'.writeTs - (j.anchor frameTs.toNat).readTs := by
  unfold writeChannel at hwrite
  split at hwrite
  · obtain rfl := Option.some.inj hwrite
    exact absurd rfl hne
  simp only at hwrite
  split at hwrite
  · obtain rfl := Option.some.inj hwrite
    exact absurd (overflows_anchor j _) hne
  obtain ⟨buf, -, hj'⟩ := Option.bind_eq_some_iff.mp hwrite
  obtain rfl := Option.some.inj hj'
  rw [← overflows_anchor j frameTs.toNat] at hne
  -- only the snap counts an overflow
  generalize j.anchor frameTs.toNat = k at hne ⊢
  obtain ⟨b, hstart⟩ := start_eq (JitterBuffer.advance { k with buf := buf }
    (frameTs.toNat + pcm.length)).snap
  rw [hstart, advance_writeTs] at hne ⊢
  unfold snap at hne ⊢
  split
  case isTrue hover => exact hover
  case isFalse hunder =>
    rw [if_neg hunder] at hne
    exact absurd rfl hne

/-! ### The pointers -/

/-- **The pointers of the jitter buffer.**  After every sequence of calls on a
buffer with room for the prebuffer and three frames: once anchored, `initTs`,
`readTs` and `writeTs` are in order, the read pointer is on the frame grid and
the depth within the cap, which is less than the ring; the calls that follow move
neither pointer back; an underrun leaves the read pointer where it is; and a snap
leaves it at or before the first sample of the frame that caused it. -/
theorem pointers_of_run {channels frameSize bufLen prebuffer : ℤ} {j₀ : JitterBuffer}
    (hnew : newJitterBuffer channels frameSize bufLen prebuffer = .ok j₀)
    (hroom : j₀.prebuffer + 3 * j₀.frameSize ≤ j₀.bufLen) {calls : List Call}
    (hrun : Run JitterBuffer.call j₀ calls j) :
    SameSizes j₀ j ∧
      (0 ≤ j.initTs → Anchored j ∧ j.maxDepth < j.bufLen ∧
        ∀ more j', Run JitterBuffer.call j more j' →
          j.readTs ≤ j'.readTs ∧ j.writeTs ≤ j'.writeTs) ∧
      (∀ out j' out', j.readFrame out = some (j', out', true, true) → j'.readTs = j.readTs) ∧
      ∀ frameTs chIdx pcm j', j.writeChannel frameTs chIdx pcm = some j' →
        pcm.length ≤ j.frameSize → j'.overflows ≠ j.overflows → j'.readTs ≤ frameTs.toNat := by
  obtain ⟨h, hsizes⟩ := (sound_of_new hnew hroom).run hrun
  refine ⟨hsizes, fun hinit => ?_, fun out j' out' hread => ?_,
    fun frameTs chIdx pcm j' hwrite hfit hne => ?_⟩
  -- once started, the pointers are apart by at most the cap, and only go up
  · have ha : Anchored j := by
      rcases h.pointers with hun | han
      · rw [hun.initTs_eq] at hinit
        omega
      · exact han
    have hcap := h.maxDepth_bounds
    have hfs := h.frameSize_pos
    refine ⟨ha, by omega, fun more j' hmore => ?_⟩
    have hforward := h.forward_run ha hmore
    exact ⟨hforward.readTs_le, hforward.writeTs_le⟩
  -- an underrun leaves the read pointer alone
  · rcases readFrame_cases h out with hr | hr | ⟨k, out'', hr, -⟩
    · rw [hr] at hread
      simp at hread
    · rw [hr] at hread
      simp only [Option.some.injEq, Prod.mk.injEq, and_true] at hread
      rw [← hread.1]
    · rw [hr] at hread
      simp at hread
  -- after a snap the frame just written is still ahead
  · rcases writeChannel_cases h frameTs chIdx pcm with ⟨-, hw⟩ | ⟨-, k, hw, hp⟩
    · obtain rfl := Option.some.inj (hwrite.symm.trans hw)
      exact absurd rfl hne
    · obtain rfl := Option.some.inj (hwrite.symm.trans hw)
      refine hp.readTs_le_of_snap (h.wellSized_anchor _) (h.anchored_anchor (by omega)) ?_
        (snapped_of_overflows hwrite hne)
      rw [(sameSizes_anchor j _).frameSize]
      exact hfit

/-- A frame far ahead of the first one snaps the read pointer to two frames over
the prebuffer behind its end. -/
theorem pointers_of_run_jump : ∃ j, Run JitterBuffer.call
      ⟨1, 2, 8, 2, 6, [0, 0, 0, 0, 0, 0, 0, 0], -1, 0, 0, false, 0, 0⟩ [.write 1 0 [7, 7]] j ∧
    ∀ j', j.writeChannel 40 0 [9, 9] = some j' → j'.overflows ≠ j.overflows → j'.readTs ≤ 40 :=
  ⟨_, Run.of_exec rfl, fun j' hwrite => (pointers_of_run
    (show newJitterBuffer 1 2 8 2 = .ok _ from rfl) (by decide)
    (show Run _ _ [.write 1 0 [7, 7]] _ from Run.of_exec rfl)).2.2.2 40 0 [9, 9] j' hwrite
      (by decide)⟩

example : (JitterBuffer.call ⟨1, 2, 8, 2, 6, [0, 7, 7, 0, 0, 0, 0, 0], 1, 3, 1, true, 0, 0⟩
    (.write 40 0 [9, 9])).map (fun j => (j.readTs, j.writeTs, j.overflows)) = some (37, 42, 1) := by
  decide

end JitterBuffer

end AmbiRTC
