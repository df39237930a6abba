/-
AmbiRTC/Ring.lean

A ring of `L` slots, each holding one value for every one of `C` lanes, kept
flat and interleaved: the value of lane `c` at position `t` stands at index
`(t % L) * C + c`.  Positions are absolute and grow without bound; a slot is
shared by all positions that are equal modulo `L`.

Main results: two lanes or two positions closer than `L` never share an index
(`index_inj`, `eq_of_emod_eq`), and a store is seen by exactly the positions
that share its slot (`cell_store_same`, `cell_store_ne`).  The samples taken out
of a ring go into planes, one list for every lane (`planeSample_set`).
-/
import Mathlib.Algebra.Order.Group.Unbundled.Int
import Mathlib.Tactic.Linarith
import Mathlib.Tactic.Ring

namespace Ring

variable {α : Type*}

/-! ### Checked indexing -/

/-- `xs[i]` with an integer index; `none` is the run-time panic. -/
def load (xs : List α) (i : ℤ) : Option α :=
  if 0 ≤ i then xs[i.toNat]? else none

/-- `xs[i] = v` with an integer index; `none` is the run-time panic. -/
def store (xs : List α) (i : ℤ) (v : α) : Option (List α) :=
  if 0 ≤ i ∧ i < xs.length then some (xs.set i.toNat v) else none

theorem exists_load {xs : List α} {i : ℤ} (h0 : 0 ≤ i) (hi : i < xs.length) :
    ∃ v, load xs i = some v := by
  have hlt : i.toNat < xs.length := by omega
  exact ⟨xs[i.toNat], by rw [load, if_pos h0, List.getElem?_eq_getElem hlt]⟩

theorem exists_store {xs : List α} {i : ℤ} (v : α) (h0 : 0 ≤ i) (hi : i < xs.length) :
    ∃ ys, store xs i v = some ys :=
  ⟨_, if_pos ⟨h0, hi⟩⟩

theorem length_store {xs ys : List α} {i : ℤ} {v : α} (h : store xs i v = some ys) :
    ys.length = xs.length := by
  unfold store at h
  split at h
  · obtain rfl := Option.some.inj h
    exact List.length_set
  · cases h

theorem load_store_same {xs ys : List α} {i : ℤ} {v : α} (h : store xs i v = some ys) :
    load ys i = some v := by
  unfold store at h
  split at h
  case isTrue hi =>
    obtain rfl := Option.some.inj h
    rw [load, if_pos hi.1, List.getElem?_set_self (by omega)]
  case isFalse => cases h

theorem load_store_ne {xs ys : List α} {i j : ℤ} {v : α} (h : store xs i v = some ys)
    (hij : j ≠ i) : load ys j = load xs j := by
  unfold store at h
  split at h
  case isTrue hi =>
    obtain rfl := Option.some.inj h
    unfold load
    split
    · rw [List.getElem?_set_ne (by omega)]
    · rfl
  case isFalse => cases h

/-- Stores at different indices commute. -/
theorem store_comm {xs : List α} {i j : ℤ} {v w : α} (hij : i ≠ j) :
    (store xs i v).bind (fun ys => store ys j w) = (store xs j w).bind fun ys => store ys i v := by
  unfold store
  by_cases hi : 0 ≤ i ∧ i < xs.length
  · by_cases hj : 0 ≤ j ∧ j < xs.length
    · have hne : i.toNat ≠ j.toNat := by omega
      simp only [if_pos hi, if_pos hj, Option.bind_some, List.length_set]
      rw [List.set_comm _ _ hne]
    · simp only [if_pos hi, if_neg hj, Option.bind_some, Option.bind_none, List.length_set]
  · by_cases hj : 0 ≤ j ∧ j < xs.length
    · simp only [if_neg hi, if_pos hj, Option.bind_some, Option.bind_none, List.length_set]
    · simp only [if_neg hi, if_neg hj, Option.bind_none]

/-! ### The interleaved index -/

/-- The index of lane `c` at position `t`. -/
def index (L C : ℕ) (t c : ℤ) : ℤ := t.tmod L * C + c

/-- The value of lane `c` at position `t`. -/
def cell (L C : ℕ) (xs : List α) (t c : ℤ) : Option α := load xs (index L C t c)

variable {L C : ℕ} {t t' c c' : ℤ}

theorem index_eq (ht : 0 ≤ t) : index L C t c = t % L * C + c := by
  rw [index, Int.tmod_eq_emod_of_nonneg ht]

theorem index_nonneg (hL : 0 < L) (ht : 0 ≤ t) (hc : 0 ≤ c) : 0 ≤ index L C t c := by
  have hmod : 0 ≤ t % L := Int.emod_nonneg t (by omega)
  have hprod : 0 ≤ t % L * C := mul_nonneg hmod (by omega)
  rw [index_eq ht]
  omega

theorem index_lt (hL : 0 < L) (ht : 0 ≤ t) (hc : c < C) :
    index L C t c < ((L * C : ℕ) : ℤ) := by
  have hmod : t % L + 1 ≤ L := Int.emod_lt_of_pos t (by omega)
  calc index L C t c < (t % L + 1) * C := by rw [index_eq ht]; linarith
    _ ≤ L * C := mul_le_mul_of_nonneg_right hmod (by omega)
    _ = ((L * C : ℕ) : ℤ) := by push_cast; rfl

/-- Two lanes never share an index, and two positions only if they share a slot. -/
theorem index_inj (ht : 0 ≤ t) (ht' : 0 ≤ t') (hc : 0 ≤ c ∧ c < C) (hc' : 0 ≤ c' ∧ c' < C)
    (h : index L C t c = index L C t' c') : t % L = t' % L ∧ c = c' := by
  have hC : (C : ℤ) ≠ 0 := by omega
  rw [index_eq ht, index_eq ht'] at h
  have hcc : c = c' := by
    have hmod := congrArg (· % (C : ℤ)) h
    simpa [Int.add_emod, Int.mul_emod_left, Int.emod_eq_of_lt hc.1 hc.2,
      Int.emod_eq_of_lt hc'.1 hc'.2] using hmod
  subst hcc
  exact ⟨mul_right_cancel₀ hC (add_right_cancel h), rfl⟩

theorem index_congr (ht : 0 ≤ t) (ht' : 0 ≤ t') (h : t % L = t' % L) :
    index L C t c = index L C t' c := by
  rw [index_eq ht, index_eq ht', h]

/-- Positions less than `L` apart that share a slot are equal. -/
theorem eq_of_emod_eq (h : t % L = t' % L) (hlt : t - t' < L) (hgt : t' - t < L) : t = t' := by
  have hdvd : (L : ℤ) ∣ t - t' :=
    Int.dvd_of_emod_eq_zero (Int.emod_eq_emod_iff_emod_sub_eq_zero.mp h)
  have hzero : t - t' = 0 :=
    Int.eq_zero_of_abs_lt_dvd hdvd (abs_lt.mpr ⟨by omega, hlt⟩)
  omega

/-- Positions that share a slot are equal, or at least one turn apart. -/
theorem turn_apart (h : t % L = t' % L) (hne : t ≠ t') : t + L ≤ t' ∨ t' + L ≤ t := by
  by_contra hnear
  exact hne (eq_of_emod_eq h (by omega) (by omega))

theorem mem_of_cell {xs : List α} {v : α} (h : cell L C xs t c = some v) : v ∈ xs := by
  unfold cell load at h
  split at h
  · exact List.mem_of_getElem? h
  · cases h

/-- Positions that share a slot have the same values. -/
theorem cell_congr {xs : List α} (ht : 0 ≤ t) (ht' : 0 ≤ t') (h : t % L = t' % L) :
    cell L C xs t c = cell L C xs t' c := by
  rw [cell, cell, index_congr ht ht' h]

/-! ### Storing into a cell -/

theorem exists_cell {xs : List α} (hlen : xs.length = L * C) (hL : 0 < L) (ht : 0 ≤ t)
    (hc : 0 ≤ c ∧ c < C) : ∃ v, cell L C xs t c = some v :=
  exists_load (index_nonneg hL ht hc.1) (by rw [hlen]; exact index_lt hL ht hc.2)

theorem exists_store_index {xs : List α} (v : α) (hlen : xs.length = L * C) (hL : 0 < L)
    (ht : 0 ≤ t) (hc : 0 ≤ c ∧ c < C) :
    ∃ ys, store xs (index L C t c) v = some ys ∧ ys.length = L * C := by
  obtain ⟨ys, hys⟩ := @exists_store _ xs _ v (index_nonneg hL ht hc.1)
    (by rw [hlen]; exact index_lt hL ht hc.2)
  exact ⟨ys, hys, (length_store hys).trans hlen⟩

theorem cell_store_same {xs ys : List α} {v : α} (h : store xs (index L C t c) v = some ys)
    (ht : 0 ≤ t) (ht' : 0 ≤ t') (hslot : t' % L = t % L) : cell L C ys t' c = some v := by
  rw [cell, index_congr ht' ht hslot]
  exact load_store_same h

theorem cell_store_ne {xs ys : List α} {v : α} (h : store xs (index L C t c) v = some ys)
    (ht : 0 ≤ t) (ht' : 0 ≤ t') (hc : 0 ≤ c ∧ c < C) (hc' : 0 ≤ c' ∧ c' < C)
    (hne : c' = c → t' % L ≠ t % L) : cell L C ys t' c' = cell L C xs t' c' := by
  apply load_store_ne h
  intro hindex
  obtain ⟨hslot, hcc⟩ := index_inj ht' ht hc' hc hindex
  exact hne hcc hslot

/-! ### Planes -/

/-- Sample `s` of plane `c`, if there is one. -/
def planeSample (out : List (List α)) (c s : ℕ) : Option α := (out[c]?).bind (·[s]?)

/-- `out[c][s] = v`, where `out` has a sample there. -/
def setPlaneSample (out : List (List α)) (c s : ℕ) (v : α) : List (List α) :=
  out.modify c fun dst => dst.set s v

theorem planeSample_set (out : List (List α)) (c s c' s' : ℕ) (v : α) :
    planeSample (setPlaneSample out c s v) c' s'
      = if c = c' ∧ s = s' then (planeSample out c' s').map fun _ => v
        else planeSample out c' s' := by
  unfold planeSample setPlaneSample
  rw [List.getElem?_modify, Option.map_eq_map, Option.bind_map]
  rcases out[c']? with - | dst
  · simp
  · simp only [Option.bind_some, Function.comp_apply]
    by_cases hc : c = c'
    · by_cases hs : s = s'
      · subst hs
        rw [if_pos hc, if_pos ⟨hc, rfl⟩, List.getElem?_set_self']
        rfl
      · rw [if_pos hc, if_neg (fun h => hs h.2), List.getElem?_set_ne hs]
    · rw [if_neg hc, if_neg (fun h => hc h.1)]

end Ring
