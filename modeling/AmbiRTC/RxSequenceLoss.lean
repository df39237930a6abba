/-
AmbiRTC/RxSequenceLoss.lean

The loss estimate of the browser is exact.  The row of a channel, 64 marks and
three words, follows the log of a receiver that forgets nothing, whatever the
order of arrival, as long as no number is 2^31 or more ahead of the highest one.

Main result: `RxSeq.lost_exact`, for arrivals on all channels in any interleaving.
-/
import AmbiRTC.RxSequence
import AmbiRTC.SlidingWindow
import Mathlib.Algebra.BigOperators.Fin
import Mathlib.Algebra.BigOperators.Pi
import Mathlib.Data.Fintype.BigOperators

namespace AmbiRTC.Client

open SlidingWindow

/-! ### Words as numbers -/

theorem toNat_ofInt (n : ℤ) : (UInt32.ofInt n).toNat = (n % 4294967296).toNat := by
  simp only [UInt32.ofInt, UInt32.toNat_ofNat']
  omega

theorem toNat_ofInt_sub (x b : ℤ) :
    (UInt32.ofInt x - UInt32.ofInt b).toNat = ((x - b) % 4294967296).toNat := by
  rw [UInt32.toNat_sub, toNat_ofInt, toNat_ofInt]
  omega

/-- Words less than half the range apart compare as the numbers do. -/
theorem isSeqNewer_ofInt {x high : ℤ} (hlo : -2 ^ 31 ≤ x - high) (hhi : x - high < 2 ^ 31) :
    isSeqNewer (UInt32.ofInt x) (UInt32.ofInt high) = decide (high < x) := by
  have hsub := toNat_ofInt_sub x high
  have hsigned : (UInt32.ofInt x - UInt32.ofInt high).toInt32.toInt = x - high := by
    show (UInt32.ofInt x - UInt32.ofInt high).toBitVec.toInt = x - high
    rw [BitVec.toInt_eq_toNat_cond, UInt32.toNat_toBitVec, hsub]
    split <;> omega
  rw [isSeqNewer, hsigned]
  exact decide_eq_decide.mpr (by omega)

namespace SeqRecv

theorem slot_ofInt (n : ℤ) : slot (UInt32.ofInt n) = (n % 64).toNat := by
  have hmask : slot (UInt32.ofInt n) = (UInt32.ofInt n).toNat % 64 := by
    rw [slot, UInt32.toNat_and]
    exact Nat.and_two_pow_sub_one_eq_mod _ 6
  rw [hmask, toNat_ofInt]
  omega

/-- Numbers less than a window apart have slots of their own. -/
theorem slot_ne {m n : ℤ} (hne : m ≠ n) (hlo : m - n < 64) (hhi : n - m < 64) :
    slot (UInt32.ofInt m) ≠ slot (UInt32.ofInt n) := by
  rw [slot_ofInt, slot_ofInt]
  omega

/-! ### A row and what has been received -/

/-- The marks of the window from `B` on are those of the numbers of `S`, and as
many as the row says; `S` has nothing beyond the window. -/
structure Describes (r : SeqRecv) (B : ℤ) (S : Finset ℤ) : Prop where
  has : r.has = true
  base : r.base = UInt32.ofInt B
  window : ∀ n, B ≤ n → n < B + 64 → (r.window (slot (UInt32.ofInt n)) = true ↔ n ∈ S)
  seen : r.seen.toNat = countIn S B (B + 64)
  below : ∀ n ∈ S, n < B + 64

variable {r : SeqRecv} {B : ℤ} {S : Finset ℤ} {lost : ℤ}

theorem countIn_window_le : countIn S B (B + 64) ≤ 64 := by
  have := @countIn_le S B (B + 64) (by omega)
  omega

/-- **One slot expires**: its number is lost if it is not there. -/
theorem Describes.expire (h : r.Describes B S) (lost : ℤ) :
    (r.expire lost).1.Describes (B + 1) S ∧
      (r.expire lost).2 = lost + (1 - countIn S B (B + 1)) := by
  have hbase : r.base + 1 = UInt32.ofInt (B + 1) := by
    rw [h.base, UInt32.ofInt_add]
    rfl
  have hfirst := h.window B le_rfl (by omega)
  rw [← h.base] at hfirst
  -- the slot that expires becomes that of the number behind the window, which has not arrived
  have hlast : slot (UInt32.ofInt (B + 64)) = slot r.base := by
    rw [h.base, slot_ofInt, slot_ofInt]
    omega
  have hfresh : B + 64 ∉ S := fun hmem => absurd (h.below _ hmem) (lt_irrefl _)
  have hslide := @countIn_slide S B 64 (by decide) hfresh
  have hsucc := @countIn_succ S B
  unfold SeqRecv.expire
  split
  case isTrue hslot =>
    have hnot : B ∉ S := by
      rw [← hfirst, hslot]
      exact Bool.false_ne_true
    rw [if_neg hnot] at hsucc
    refine ⟨⟨h.has, hbase, fun n hlo hhi => ?_, ?_, fun n hn => ?_⟩, ?_⟩
    · rcases eq_or_ne n (B + 64) with rfl | hne
      · show r.window _ = true ↔ _
        rw [hlast, hslot]
        exact iff_of_false Bool.false_ne_true hfresh
      · exact h.window n (by omega) (by omega)
    · show r.seen.toNat = _
      rw [h.seen, hslide, hsucc, Nat.zero_add]
    · have := h.below n hn
      omega
    · rw [hsucc]
      rfl
  case isFalse hslot =>
    have hmem : B ∈ S := hfirst.mp (Bool.eq_true_of_not_eq_false hslot)
    rw [if_pos hmem] at hsucc
    have hle := @countIn_window_le B S
    refine ⟨⟨h.has, hbase, fun n hlo hhi => ?_, ?_, fun n hn => ?_⟩, ?_⟩
    · show Function.update r.window (slot r.base) false _ = true ↔ _
      rcases eq_or_ne n (B + 64) with rfl | hne
      · rw [hlast, Function.update_self]
        exact iff_of_false Bool.false_ne_true hfresh
      · rw [Function.update_of_ne]
        · exact h.window n (by omega) (by omega)
        · rw [h.base]
          exact slot_ne (by omega) (by omega) (by omega)
    · show (r.seen - 1).toNat = _
      have hseen := h.seen
      rw [UInt16.toNat_sub_of_le]
      · rw [hseen, hslide, hsucc]
        show 1 + _ - 1 = _
        rw [Nat.add_sub_cancel_left]
      · rw [UInt16.le_iff_toNat_le, hseen, hslide, hsucc]
        exact Nat.le_add_right 1 _
    · have := h.below n hn
      omega
    · rw [hsucc]
      simp

/-- Several slots, one after the other. -/
theorem Describes.advance (h : r.Describes B S) (lost : ℤ) (count : ℕ) :
    (r.advanceRxSeqWindow lost count).1.Describes (B + count) S ∧
      (r.advanceRxSeqWindow lost count).2 = lost + (count - countIn S B (B + count)) := by
  induction count generalizing r B lost with
  | zero =>
    simp only [Nat.cast_zero, add_zero, countIn_self, sub_zero]
    exact ⟨h, rfl⟩
  | succ count ih =>
    obtain ⟨hdescribes, hlost⟩ := h.expire lost
    obtain ⟨hrest, hlost'⟩ := ih hdescribes (r.expire lost).2
    have hsplit := @countIn_split S B (B + 1) (B + 1 + count) (by omega) (by omega)
    have hto : B + ((count + 1 : ℕ) : ℤ) = B + 1 + count := by
      push_cast
      omega
    rw [hto]
    refine ⟨hrest, ?_⟩
    show ((r.expire lost).1.advanceRxSeqWindow (r.expire lost).2 count).2 = _
    rw [hlost', hlost, hsplit]
    push_cast
    omega

/-- After a jump over the whole window nothing of the new one has been received. -/
theorem Describes.jump (h : r.Describes B S) {x : ℤ} (hx : B + 128 ≤ x) (word : UInt32)
    (hword : word = UInt32.ofInt (x - 63)) :
    SeqRecv.Describes { r.clearRxSeqWindow with seen := 0, base := word } (x - 63) S := by
  have hbelow : ∀ n ∈ S, n < x - 63 := by
    intro n hn
    have := h.below n hn
    omega
  refine ⟨h.has, hword, fun n hlo hhi => ?_, ?_, fun n hn => ?_⟩
  · exact iff_of_false Bool.false_ne_true fun hn => absurd (hbelow n hn) (not_lt.mpr hlo)
  · exact (countIn_eq_zero hbelow).symm
  · have := hbelow n hn
    omega

/-- A number of the window is marked and counted once. -/
theorem Describes.mark (h : r.Describes B S) {x : ℤ} (hlo : B ≤ x) (hhi : x < B + 64) :
    (r.mark (UInt32.ofInt x)).Describes B (insert x S) := by
  have hbelow : ∀ n ∈ insert x S, n < B + 64 := by
    intro n hn
    rcases Finset.mem_insert.mp hn with rfl | hn
    · exact hhi
    · exact h.below n hn
  have hslot := h.window x hlo hhi
  unfold SeqRecv.mark
  split
  case isTrue hclear =>
    -- a clear bit means a packet not seen before
    have hnot : x ∉ S := by
      rw [← hslot, hclear]
      exact Bool.false_ne_true
    refine ⟨h.has, h.base, fun n hlo' hhi' => ?_, ?_, hbelow⟩
    · show Function.update r.window (slot (UInt32.ofInt x)) true _ = true ↔ _
      rw [Finset.mem_insert]
      rcases eq_or_ne n x with rfl | hne
      · rw [Function.update_self]
        exact iff_of_true rfl (Or.inl rfl)
      · rw [Function.update_of_ne (slot_ne hne (by omega) (by omega)), h.window n hlo' hhi']
        exact (or_iff_right hne).symm
    · show (r.seen + 1).toNat = _
      have hseen := h.seen
      have hle := @countIn_window_le B S
      rw [countIn_insert hnot ⟨hlo, hhi⟩, ← hseen, UInt16.toNat_add]
      exact Nat.mod_eq_of_lt (by rw [hseen]; show _ + 1 < 65536; omega)
  case isFalse hmarked =>
    -- a duplicate
    have hmem : x ∈ S := hslot.mp (Bool.eq_true_of_not_eq_false hmarked)
    rw [Finset.insert_eq_of_mem hmem]
    exact h

theorem high_mark (r : SeqRecv) (seqNum : UInt32) : (r.mark seqNum).high = r.high := by
  unfold SeqRecv.mark
  split <;> rfl

/-! ### A row follows the log -/

/-- The row is that of the log. -/
structure Tracks (r : SeqRecv) (l : Log) : Prop where
  describes : r.Describes l.base l.inTime
  high : r.high = UInt32.ofInt l.high

theorem tracks_start (x lost : ℤ) :
    (reset.track lost (UInt32.ofInt x)).1.Tracks (Log.start x) ∧
      (reset.track lost (UInt32.ofInt x)).2 = lost := by
  refine ⟨⟨⟨rfl, rfl, fun n hlo hhi => ?_, ?_, fun n hn => ?_⟩, rfl⟩, rfl⟩
  · show Function.update (fun _ => false) (slot (UInt32.ofInt x)) true _ = true ↔ _
    refine Iff.trans ?_ Finset.mem_singleton.symm
    rcases eq_or_ne n x with rfl | hne
    · rw [Function.update_self]
      exact iff_of_true rfl rfl
    · have hlo' : x ≤ n := hlo
      have hhi' : n < x + 64 := hhi
      rw [Function.update_of_ne (slot_ne hne (by omega) (by omega))]
      exact iff_of_false Bool.false_ne_true hne
  · show 1 = countIn (insert x ∅) x (x + 64)
    rw [countIn_insert (Finset.notMem_empty x) ⟨le_rfl, by omega⟩,
      countIn_eq_zero fun n hn => absurd hn (Finset.notMem_empty n)]
  · obtain rfl := Finset.mem_singleton.mp hn
    exact lt_add_of_pos_right n (by decide)

variable {l : Log} {x : ℤ}

section Branches

variable {seqNum : UInt32}

theorem track_late (hhas : r.has = true) (hoffset : 64 ≤ (seqNum - r.base).toNat)
    (hold : isSeqNewer seqNum r.high = false) : r.track lost seqNum = (r, lost) := by
  have hge : (seqNum - r.base).toNat ≥ rxSeqWindowSize := hoffset
  rw [track, if_neg (by rw [hhas]; decide)]
  simp only [if_pos hge, hold, Bool.not_false, if_true]

theorem track_window (hhas : r.has = true) (hoffset : (seqNum - r.base).toNat < 64) :
    r.track lost seqNum
      = ({ r with high := if isSeqNewer seqNum r.high then seqNum else r.high }.mark seqNum,
        lost) := by
  have hlt : ¬ (seqNum - r.base).toNat ≥ rxSeqWindowSize := not_le.mpr hoffset
  rw [track, if_neg (by rw [hhas]; decide)]
  simp only [if_neg hlt]
  cases isSeqNewer seqNum r.high <;> rfl

theorem advance_eq {n : ℕ} (h : n ≥ rxSeqWindowSize) : n - rxSeqWindowSize + 1 = n - 63 := by
  unfold rxSeqWindowSize at h ⊢
  omega

theorem track_jump (hhas : r.has = true) (hoffset : 128 ≤ (seqNum - r.base).toNat)
    (hnew : isSeqNewer seqNum r.high = true) :
    r.track lost seqNum
      = ({ r.clearRxSeqWindow with
          seen := 0
          base := seqNum - UInt32.ofNat rxSeqWindowSize + 1
          high := seqNum }.mark seqNum,
        lost + (((seqNum - r.base).toNat - 63 : ℕ) - (r.seen.toNat : ℤ))) := by
  have hge : (seqNum - r.base).toNat ≥ rxSeqWindowSize := le_trans (by decide) hoffset
  have hjump : (seqNum - r.base).toNat - 63 > rxSeqWindowSize := by
    unfold rxSeqWindowSize
    omega
  have hadvance := advance_eq hge
  rw [track, if_neg (by rw [hhas]; decide)]
  simp only [if_pos hge, hnew, Bool.not_true, Bool.false_eq_true, if_false, hadvance, if_pos hjump]

theorem track_slide (hhas : r.has = true) (hlo : 64 ≤ (seqNum - r.base).toNat)
    (hhi : (seqNum - r.base).toNat < 128) (hnew : isSeqNewer seqNum r.high = true) :
    r.track lost seqNum
      = ({ (r.advanceRxSeqWindow lost ((seqNum - r.base).toNat - 63)).1 with
          high := seqNum }.mark seqNum,
        (r.advanceRxSeqWindow lost ((seqNum - r.base).toNat - 63)).2) := by
  have hge : (seqNum - r.base).toNat ≥ rxSeqWindowSize := hlo
  have hslide : ¬ (seqNum - r.base).toNat - 63 > rxSeqWindowSize := by
    unfold rxSeqWindowSize
    omega
  have hadvance := advance_eq hge
  rw [track, if_neg (by rw [hhas]; decide)]
  simp only [if_pos hge, hnew, Bool.not_true, Bool.false_eq_true, if_false, hadvance, if_neg hslide]

end Branches

/-- The highest number is not part of the description. -/
theorem Describes.withHigh (h : r.Describes B S) (high : UInt32) :
    SeqRecv.Describes { r with high := high } B S :=
  ⟨h.has, h.base, h.window, h.seen, h.below⟩

/-- **One arrival**: the row stays that of the log, and what is added to the loss
is the loss of the log. -/
theorem Tracks.track (h : r.Tracks l) (lost : ℤ) (hl : l.Valid 64) (hlo : -2 ^ 31 ≤ x - l.high)
    (hhi : x - l.high < 2 ^ 31) :
    (r.track lost (UInt32.ofInt x)).1.Tracks (l.arrive 64 x) ∧
      (r.track lost (UInt32.ofInt x)).2 = lost + ((l.arrive 64 x).lost - l.lost) := by
  have hhas := h.describes.has
  have hbase := hl.base_le
  have hhigh := hl.high_lt
  have hoffset := toNat_ofInt_sub x l.base
  have hnewer := isSeqNewer_ofInt hlo hhi
  have hloss := Log.lost_arrive (x := x) hl (by decide)
  rw [← h.describes.base] at hoffset
  rw [← h.high] at hnewer
  rcases lt_or_ge x l.base with hlate | hle
  · have hold : ¬ l.high < x := by omega
    rw [decide_eq_false hold] at hnewer
    rw [track_late hhas (by omega) hnewer, Log.arrive_of_lt hlate]
    exact ⟨h, by omega⟩
  rw [Log.arrive_of_le hle] at hloss ⊢
  simp only at hloss
  rcases lt_or_ge x (l.base + 64) with hin | hbeyond
  · -- in the window: the base stays
    have hsame : max l.base (x + 1 - 64) = l.base := max_eq_left (by omega)
    rw [hsame, countIn_self] at hloss
    rw [track_window hhas (by omega), hsame]
    refine ⟨⟨(h.describes.withHigh _).mark hle hin, ?_⟩, ?_⟩
    · rw [high_mark, hnewer, h.high]
      rcases lt_or_ge l.high x with hnew | hold
      · rw [decide_eq_true hnew, if_pos rfl, max_eq_right hnew.le]
      · rw [decide_eq_false (not_lt.mpr hold), if_neg Bool.false_ne_true, max_eq_left hold]
    · show lost = _
      omega
  -- beyond it: the number becomes the last of the window
  have hnext : max l.base (x + 1 - 64) = x - 63 := by omega
  have hhigh' : max l.high x = x := max_eq_right (by omega)
  have hadvance : (((UInt32.ofInt x - r.base).toNat - 63 : ℕ) : ℤ) = x - 63 - l.base := by omega
  have hnew : l.high < x := by omega
  rw [decide_eq_true hnew] at hnewer
  rw [hnext, hhigh'] at hloss
  rw [hnext, hhigh']
  rcases lt_or_ge x (l.base + 128) with hnear | hfar
  · rw [track_slide hhas (by omega) (by omega) hnewer]
    obtain ⟨hdescribes, hlost⟩ :=
      h.describes.advance lost ((UInt32.ofInt x - r.base).toNat - 63)
    rw [hadvance, add_sub_cancel] at hdescribes hlost
    refine ⟨⟨(hdescribes.withHigh _).mark (by omega) (by omega), high_mark _ _⟩, ?_⟩
    show (r.advanceRxSeqWindow lost _).2 = _
    rw [hlost]
    omega
  · rw [track_jump hhas (by omega) hnewer]
    have hword : UInt32.ofInt x - UInt32.ofNat rxSeqWindowSize + 1 = UInt32.ofInt (x - 63) := by
      apply UInt32.toNat_inj.mp
      have hsize : UInt32.ofNat rxSeqWindowSize = UInt32.ofInt 64 := rfl
      rw [hsize, UInt32.toNat_add, toNat_ofInt_sub, toNat_ofInt]
      show (_ + 1) % 4294967296 = _
      omega
    have hdescribes := h.describes.jump hfar _ hword
    refine ⟨⟨(hdescribes.withHigh _).mark (by omega) (by omega), high_mark _ _⟩, ?_⟩
    have hseen : countIn l.inTime l.base (x - 63) = r.seen.toNat := by
      rw [h.describes.seen, countIn_split (b := l.base + 64) (by omega) (by omega),
        countIn_eq_zero h.describes.below, Nat.add_zero]
    show lost + (_ - _) = _
    rw [hadvance]
    omega

/-! ### Runs -/

/-- The row after the arrivals of its channel. -/
def Follows (r : SeqRecv) : List ℤ → Prop
  | [] => r = reset
  | first :: xs => r.Tracks (Log.of 64 first xs)

/-- What the arrivals of a channel add to the loss. -/
def lostOf : List ℤ → ℤ
  | [] => 0
  | first :: xs => (Log.of 64 first xs).lost

/-- No arrival is 2^31 or more ahead of the highest one so far, or further behind. -/
def Near : ℤ → List ℤ → Prop
  | _, [] => True
  | high, x :: xs => (-2 ^ 31 ≤ x - high ∧ x - high < 2 ^ 31) ∧ Near (max high x) xs

instance decidableNear : ∀ high xs, Decidable (Near high xs)
  | _, [] => .isTrue trivial
  | high, x :: xs =>
    have := decidableNear (max high x) xs
    inferInstanceAs (Decidable ((_ ∧ _) ∧ _))

/-- The same of a channel's arrivals from the first one on. -/
def NearFirst : List ℤ → Prop
  | [] => True
  | first :: xs => Near first xs

instance : ∀ xs, Decidable (NearFirst xs)
  | [] => .isTrue trivial
  | first :: xs => decidableNear first xs

theorem near_concat {high : ℤ} {xs : List ℤ} : Near high (xs ++ [x]) ↔
    Near high xs ∧ -2 ^ 31 ≤ x - xs.foldl max high ∧ x - xs.foldl max high < 2 ^ 31 := by
  induction xs generalizing high with
  | nil => exact and_comm
  | cons y xs ih =>
    rw [List.cons_append, Near, Near, ih, List.foldl_cons]
    exact and_assoc.symm

theorem NearFirst.of_concat {ns : List ℤ} (h : NearFirst (ns ++ [x])) : NearFirst ns := by
  cases ns with
  | nil => exact trivial
  | cons first xs => exact (near_concat.mp h).1

/-- **One arrival on a channel.** -/
theorem Follows.track {ns : List ℤ} (h : r.Follows ns) (lost : ℤ) (hnear : NearFirst (ns ++ [x])) :
    (r.track lost (UInt32.ofInt x)).1.Follows (ns ++ [x]) ∧
      (r.track lost (UInt32.ofInt x)).2 = lost + (lostOf (ns ++ [x]) - lostOf ns) := by
  cases ns with
  | nil =>
    obtain rfl : r = reset := h
    obtain ⟨htracks, hlost⟩ := tracks_start x lost
    refine ⟨htracks, hlost.trans ?_⟩
    have hzero : (Log.start x).lost = 0 := by
      show x - x - (countIn {x} x x : ℤ) = 0
      rw [countIn_self, sub_self]
      rfl
    show lost = lost + ((Log.start x).lost - 0)
    rw [hzero, sub_zero, add_zero]
  | cons first xs =>
    have hvalid : (Log.of 64 first xs).Valid 64 := Log.valid_of (by decide)
    obtain ⟨-, hlo, hhi⟩ := near_concat.mp hnear
    rw [← Log.high_of (W := 64) (by decide)] at hlo hhi
    have hstep := Tracks.track h lost hvalid hlo hhi
    rw [← Log.of_concat] at hstep
    exact hstep

end SeqRecv

namespace RxSeq

open SeqRecv

/-- The sequence numbers that arrived on a channel. -/
def numbers (c : Fin 16) (arrivals : List (Fin 16 × ℤ)) : List ℤ :=
  (arrivals.filter fun a => a.1 = c).map Prod.snd

/-- The client after the arrivals, with `lost` packets counted before. -/
def received (lost : ℤ) (arrivals : List (Fin 16 × ℤ)) : RxSeq :=
  arrivals.foldl (fun s a => s.trackRxSeq a.1 (UInt32.ofInt a.2)) (RxSeq.reset lost)

variable {lost : ℤ} {arrivals : List (Fin 16 × ℤ)}

theorem numbers_concat_same {c : Fin 16} {x : ℤ} :
    numbers c (arrivals ++ [(c, x)]) = numbers c arrivals ++ [x] := by
  simp [numbers]

theorem numbers_concat_ne {c d : Fin 16} {x : ℤ} (hne : d ≠ c) :
    numbers c (arrivals ++ [(d, x)]) = numbers c arrivals := by
  simp [numbers, hne]

/-- Every row follows the arrivals of its channel, and the count is the sum. -/
theorem received_follows (hnear : ∀ c, NearFirst (numbers c arrivals)) :
    (∀ c, ((received lost arrivals).row c).Follows (numbers c arrivals)) ∧
      (received lost arrivals).totalPktsLost = lost + ∑ c, lostOf (numbers c arrivals) := by
  induction arrivals using List.reverseRecOn with
  | nil => exact ⟨fun _ => rfl, (by simp [numbers, lostOf]; rfl)⟩
  -- the induction is on the arrivals so far; only the row of the last packet's channel moves
  | append_singleton arrivals a ih =>
    obtain ⟨d, x⟩ := a
    have hnear' : ∀ c, NearFirst (numbers c arrivals) := by
      intro c
      rcases eq_or_ne d c with rfl | hne
      · have := hnear d
        rw [numbers_concat_same] at this
        exact this.of_concat
      · rw [← numbers_concat_ne hne]
        exact hnear c
    obtain ⟨hrows, hlost⟩ := ih hnear'
    have hd := hnear d
    rw [numbers_concat_same] at hd
    obtain ⟨hrow, hadded⟩ :=
      (hrows d).track (received lost arrivals).totalPktsLost hd
    have hreceived : received lost (arrivals ++ [(d, x)])
        = (received lost arrivals).trackRxSeq d (UInt32.ofInt x) := List.foldl_append
    rw [hreceived]
    refine ⟨fun c => ?_, ?_⟩
    · have hupdate : ((received lost arrivals).trackRxSeq d (UInt32.ofInt x)).row
          = Function.update (received lost arrivals).row d _ := rfl
      rw [hupdate]
      rcases eq_or_ne c d with rfl | hne
      · rw [Function.update_self, numbers_concat_same]
        exact hrow
      · rw [Function.update_of_ne hne, numbers_concat_ne hne.symm]
        exact hrows c
    -- the other channels have lost what they had
    · have hothers : ∑ c ∈ Finset.univ.erase d, lostOf (numbers c (arrivals ++ [(d, x)]))
          = ∑ c ∈ Finset.univ.erase d, lostOf (numbers c arrivals) :=
        Finset.sum_congr rfl fun c hc => by
          rw [numbers_concat_ne (Finset.ne_of_mem_erase hc).symm]
      show (((received lost arrivals).row d).track _ _).2 = _
      rw [hadded, hlost, ← Finset.add_sum_erase _ _ (Finset.mem_univ d),
        ← Finset.add_sum_erase _ _ (Finset.mem_univ d), hothers, numbers_concat_same]
      omega

/-- What the row and the loss of a channel say about its arrivals: `B` is where the
base has got to and `H` the highest number; what came to be below `B` is lost but
for the numbers that arrived when the base was not yet beyond them. -/
structure Exact (r : SeqRecv) (lost first : ℤ) (xs : List ℤ) (B H : ℤ) : Prop where
  base : r.base = UInt32.ofInt B
  high : r.high = UInt32.ofInt H
  high_isGreatest : IsGreatest {n | n ∈ first :: xs} H
  base_le_high : B ≤ H
  high_le : H ≤ B + 63
  window : ∀ n, B ≤ n → n ≤ B + 63 →
    (r.window (slot (UInt32.ofInt n)) = true ↔ n ∈ first :: xs)
  seen : ∃ marked : Finset ℤ,
    (∀ n, n ∈ marked ↔ (B ≤ n ∧ n ≤ B + 63) ∧ n ∈ first :: xs) ∧ r.seen.toNat = marked.card
  lost : ∃ inTime : Finset ℤ,
    (∀ n, n ∈ inTime ↔ (first ≤ n ∧ n < B) ∧ InTime 64 first xs n) ∧
      lost = B - first - inTime.card

theorem exact_of_tracks {r : SeqRecv} {first : ℤ} {xs : List ℤ}
    (h : r.Tracks (Log.of 64 first xs)) :
    Exact r (lostOf (first :: xs)) first xs (baseOf 64 first xs) (xs.foldl max first) := by
  have hvalid : (Log.of 64 first xs).Valid 64 := Log.valid_of (by decide)
  have hbase : (Log.of 64 first xs).base = baseOf 64 first xs := Log.base_of (by decide)
  have hhigh : (Log.of 64 first xs).high = xs.foldl max first := Log.high_of (by decide)
  have hfirst : (Log.of 64 first xs).first = first := Log.first_of
  -- what the log keeps of the window is what has arrived of it
  have hmem : ∀ n, baseOf 64 first xs ≤ n →
      (n ∈ (Log.of 64 first xs).inTime ↔ n ∈ first :: xs) :=
    fun n hn => Log.mem_log_iff_of_base_le (by decide) hn
  obtain ⟨hdescribes, hword⟩ := h
  rw [hbase] at hdescribes
  rw [hhigh] at hword
  have hle := hvalid.base_le
  have hlt := hvalid.high_lt
  rw [hbase, hhigh] at hle hlt
  refine ⟨hdescribes.base, hword, isGreatest_foldl_max first xs, hle, by omega,
    fun n hlo hhi => ?_, ?_, ?_⟩
  · rw [hdescribes.window n hlo (by omega)]
    exact hmem n hlo
  · refine ⟨(Log.of 64 first xs).inTime.filter fun n => baseOf 64 first xs ≤ n ∧
      n < baseOf 64 first xs + 64, fun n => ?_, hdescribes.seen⟩
    rw [Finset.mem_filter]
    constructor
    · rintro ⟨hn, hlo, hhi⟩
      exact ⟨⟨hlo, by omega⟩, (hmem n hlo).mp hn⟩
    · rintro ⟨⟨hlo, hhi⟩, hn⟩
      exact ⟨(hmem n hlo).mpr hn, hlo, by omega⟩
  -- the lost ones are below the window and above the first
  · refine ⟨(Log.of 64 first xs).inTime.filter fun n => first ≤ n ∧ n < baseOf 64 first xs,
      fun n => ?_, ?_⟩
    · rw [Finset.mem_filter, Log.mem_log_iff (by decide), and_comm]
    · rw [lostOf, Log.lost, hbase, hfirst, countIn]

/-- **The estimate is exact**, on every channel and in sum. -/
theorem lost_exact (lost : ℤ) (arrivals : List (Fin 16 × ℤ))
    (hnear : ∀ c, NearFirst (numbers c arrivals)) :
    ∃ lostOn : Fin 16 → ℤ,
      (received lost arrivals).totalPktsLost = lost + ∑ c, lostOn c ∧
      ∀ c, (numbers c arrivals = [] → lostOn c = 0) ∧
        ∀ first xs, numbers c arrivals = first :: xs →
          ∃ H, Exact ((received lost arrivals).row c) (lostOn c) first xs
            (baseOf 64 first xs) H := by
  obtain ⟨hrows, hlost⟩ := @received_follows lost arrivals hnear
  refine ⟨fun c => lostOf (numbers c arrivals), hlost, fun c => ⟨fun hnil => ?_, ?_⟩⟩
  · simp only [hnil]
    rfl
  · intro first xs hcons
    have htracks := hrows c
    rw [hcons] at htracks
    simp only [hcons]
    exact ⟨_, exact_of_tracks htracks⟩

/-- Across the wrap, out of order, twice, far ahead and too late. -/
def shuffledArrivals (c d : Fin 16) : List (Fin 16 × ℤ) :=
  [(c, 4294967294), (c, 4294967297), (d, 7), (c, 4294967295), (c, 4294967297),
    (c, 4294967596), (c, 4294967546), (c, 4294967296)]

theorem lost_exact_shuffled :
    ∃ lostOn : Fin 16 → ℤ,
      (received 0 (shuffledArrivals 3 0)).totalPktsLost = 0 + ∑ c, lostOn c ∧
      ∀ c, (numbers c (shuffledArrivals 3 0) = [] → lostOn c = 0) ∧
        ∀ first xs, numbers c (shuffledArrivals 3 0) = first :: xs →
          ∃ H, Exact ((received 0 (shuffledArrivals 3 0)).row c) (lostOn c) first xs
            (baseOf 64 first xs) H :=
  lost_exact 0 (shuffledArrivals 3 0) (by decide)

end RxSeq

end AmbiRTC.Client
