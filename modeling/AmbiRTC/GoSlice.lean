/-
AmbiRTC/GoSlice.lean

Go slices as values: the elements up to the length, then the rest of the
backing array up to the capacity.

A slice expression `s[lo:hi]` is checked against the *capacity*, not against
the length: a high bound beyond the length is legal and exposes what the
backing array holds there, and anything else panics.  `Slice.sub` returns
`none` exactly when the run-time check fails.  Bounds are integers, because a
program may well compute a negative one.
-/
import Mathlib.Tactic.Linarith

namespace GoSlice

variable {α : Type*}

/-- A Go slice on a platform with 64-bit `int`. -/
structure Slice (α : Type*) where
  /-- the elements up to the length -/
  data : List α
  /-- the backing array from the length up to the capacity -/
  spare : List α
  cap_lt : data.length + spare.length < 2 ^ 63

namespace Slice

/-- `cap(s)`. -/
def cap (s : Slice α) : ℕ := s.data.length + s.spare.length

/-- `len(s)`, an `int`. -/
def len (s : Slice α) : Int64 := Int64.ofNat s.data.length

theorem length_lt (s : Slice α) : s.data.length < 2 ^ 63 :=
  lt_of_le_of_lt (Nat.le_add_right _ _) s.cap_lt

theorem length_le_cap (s : Slice α) : s.data.length ≤ s.cap := Nat.le_add_right _ _

@[simp] theorem toInt_len (s : Slice α) : s.len.toInt = s.data.length :=
  Int64.toInt_ofNat_of_lt s.length_lt

/-- `s[lo:hi]`; `none` is the run-time panic. -/
def sub (s : Slice α) (lo hi : ℤ) : Option (Slice α) :=
  if 0 ≤ lo ∧ lo ≤ hi ∧ hi ≤ s.cap then
    some
      { data := ((s.data ++ s.spare).take hi.toNat).drop lo.toNat
        spare := (s.data ++ s.spare).drop hi.toNat
        cap_lt := by
          have := s.cap_lt
          simp only [List.length_drop, List.length_take, List.length_append]
          omega }
  else none

/-- `s[lo:]`, whose high bound is the length. -/
def dropFrom (s : Slice α) (lo : ℤ) : Option (Slice α) := s.sub lo s.data.length

theorem sub_isSome {s : Slice α} {lo hi : ℤ} :
    (s.sub lo hi).isSome ↔ 0 ≤ lo ∧ lo ≤ hi ∧ hi ≤ s.cap := by
  unfold sub
  split <;> simp_all

theorem sub_bounds {s t : Slice α} {lo hi : ℤ} (h : s.sub lo hi = some t) :
    0 ≤ lo ∧ lo ≤ hi ∧ hi ≤ s.cap :=
  sub_isSome.mp (by rw [h]; rfl)

/-- Inside the length a slice expression reads the elements themselves. -/
theorem sub_of_le {s : Slice α} {lo hi : ℕ} (hlo : lo ≤ hi) (hhi : hi ≤ s.data.length) :
    ∃ t, s.sub lo hi = some t ∧ t.data = (s.data.drop lo).take (hi - lo) := by
  have hcap := s.length_le_cap
  unfold sub
  rw [if_pos (by omega)]
  refine ⟨_, rfl, ?_⟩
  simp only [Int.toNat_natCast]
  rw [List.take_append_of_le_length hhi, List.drop_take]

theorem dropFrom_of_le {s : Slice α} {lo : ℕ} (hlo : lo ≤ s.data.length) :
    ∃ t, s.dropFrom lo = some t ∧ t.data = s.data.drop lo := by
  obtain ⟨t, ht, hd⟩ := sub_of_le hlo le_rfl
  refine ⟨t, ht, ?_⟩
  rw [hd, List.take_of_length_le (by rw [List.length_drop])]

end Slice

end GoSlice
