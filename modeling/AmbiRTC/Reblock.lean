/-
AmbiRTC/Reblock.lean

Cutting a stream into frames of `F` samples.  The samples come in pieces of any
length; a buffer of `F` places keeps those of the frame under way, and what
stands behind the fill level does not matter.

`frame` and `held` say what has been completed and what is left of the stream so
far, without any buffer.  Main results: `Holds.exists_overwrite` (a piece that
fits is copied behind what is held) with `Holds.partial_frame` and
`Holds.full_frame`, the two ways a copy can end.  Frames put together again are
read by `getElem?_flatMap`.
-/
import Mathlib.Data.List.Basic
import Mathlib.Tactic.Ring

namespace Reblock

variable {β : Type*}

/-! ### The frames of a stream -/

/-- Frame `k` of the stream. -/
def frame (F : ℕ) (xs : List β) (k : ℕ) : List β := (xs.drop (k * F)).take F

/-- The samples behind the last complete frame. -/
def held (F : ℕ) (xs : List β) : List β := xs.drop (xs.length / F * F)

theorem length_held (F : ℕ) (xs : List β) : (held F xs).length = xs.length % F := by
  have := Nat.div_add_mod' xs.length F
  rw [held, List.length_drop]
  omega

/-- The frames that are complete stay as they are. -/
theorem frame_append {F k : ℕ} {xs : List β} (ys : List β) (h : k < xs.length / F) :
    frame F (xs ++ ys) k = frame F xs k := by
  have hmul : (k + 1) * F ≤ xs.length :=
    (Nat.mul_le_mul_right F h).trans (Nat.div_mul_le_self _ _)
  rw [Nat.add_mul, Nat.one_mul] at hmul
  rw [frame, frame, List.drop_append_of_le_length (by omega), List.take_append_of_le_length]
  rw [List.length_drop]
  omega

/-- A piece too short for the frame under way completes none. -/
theorem count_of_lt {F n m : ℕ} (h : n % F + m < F) :
    (n + m) / F = n / F ∧ (n + m) % F = n % F + m := by
  have hsum := Nat.div_add_mod' n F
  have hdiv : (n + m) / F = n / F := by
    apply Nat.div_eq_of_lt_le
    · omega
    · rw [Nat.add_mul]
      omega
  refine ⟨hdiv, ?_⟩
  have hsum' := Nat.div_add_mod' (n + m) F
  rw [hdiv] at hsum'
  omega

/-- A piece that completes the frame under way. -/
theorem count_of_eq {F n m : ℕ} (hF : 0 < F) (h : n % F + m = F) :
    (n + m) / F = n / F + 1 ∧ (n + m) % F = 0 := by
  have hlen : n + m = (n / F + 1) * F := by
    have hsum := Nat.div_add_mod' n F
    rw [Nat.add_mul]
    omega
  rw [hlen]
  exact ⟨Nat.mul_div_cancel _ hF, Nat.mul_mod_left _ _⟩

theorem held_append {F : ℕ} {xs ys : List β} (h : (xs.length + ys.length) / F = xs.length / F) :
    held F (xs ++ ys) = held F xs ++ ys := by
  rw [held, held, List.length_append, h,
    List.drop_append_of_le_length (Nat.div_mul_le_self _ _)]

/-- What is held and the piece that completes it make the next frame. -/
theorem frame_of_eq {F : ℕ} {xs ys : List β} (h : xs.length % F + ys.length = F) :
    frame F (xs ++ ys) (xs.length / F) = held F xs ++ ys := by
  rw [frame, List.drop_append_of_le_length (Nat.div_mul_le_self _ _), ← held]
  rw [List.take_of_length_le (by rw [List.length_append, length_held]; omega)]

/-! ### The buffer -/

/-- `dst` with `src` written from place `i` on; `none` where it does not fit. -/
def overwrite (dst src : List β) (i : ℕ) : Option (List β) :=
  if i + src.length ≤ dst.length then
    some (dst.take i ++ src ++ dst.drop (i + src.length))
  else none

/-- The buffer holds, up to its fill level, the samples of the frame under way
after the stream `xs`. -/
structure Holds (F : ℕ) (xs buf : List β) (fill : ℕ) : Prop where
  length : buf.length = F
  fill_eq : fill = xs.length % F
  contents : buf.take fill = held F xs

/-- After a whole number of frames any buffer will do. -/
theorem holds_zero {F : ℕ} {xs buf : List β} (hlen : buf.length = F)
    (hmod : xs.length % F = 0) : Holds F xs buf 0 where
  length := hlen
  fill_eq := hmod.symm
  contents := by
    have hnil : held F xs = [] := List.length_eq_zero_iff.mp (by rw [length_held, hmod])
    rw [hnil, List.take_zero]

namespace Holds

variable {F fill : ℕ} {xs ys buf buf' : List β}

/-- A piece that fits goes in behind what is held. -/
theorem exists_overwrite (h : Holds F xs buf fill) (hfit : fill + ys.length ≤ F) :
    ∃ buf', overwrite buf ys fill = some buf' ∧ buf'.length = F ∧
      buf'.take (fill + ys.length) = held F xs ++ ys := by
  have hlen := h.length
  refine ⟨_, if_pos (by omega), ?_, ?_⟩
  · rw [List.length_append, List.length_append, List.length_take, List.length_drop]
    omega
  · have hfront : (buf.take fill ++ ys).length = fill + ys.length := by
      rw [List.length_append, List.length_take]
      omega
    rw [← hfront, List.take_left, h.contents]

variable (h : Holds F xs buf fill) (hlen : buf'.length = F)
  (htake : buf'.take (fill + ys.length) = held F xs ++ ys)

include h hlen htake

/-- A copy that leaves room keeps the frame under way. -/
theorem partial_frame (hroom : fill + ys.length < F) :
    Holds F (xs ++ ys) buf' (fill + ys.length) := by
  rw [h.fill_eq] at hroom htake ⊢
  obtain ⟨hdiv, hmod⟩ := count_of_lt hroom
  exact ⟨hlen, by rw [List.length_append, hmod], by rw [htake, held_append hdiv]⟩

/-- A copy that fills the buffer makes it the next frame. -/
theorem full_frame (hfull : fill + ys.length = F) :
    frame F (xs ++ ys) (xs.length / F) = buf' := by
  have hfill := h.fill_eq
  rw [frame_of_eq (by rw [← hfill]; exact hfull), ← htake, hfull, ← hlen, List.take_length]

end Holds

/-! ### Frames put together -/

/-- Pieces of `n` places each, one after the other: place `j` of piece `i`. -/
theorem getElem?_flatMap {γ : Type*} {f : γ → List β} {n j : ℕ} (hj : j < n) (l : List γ) (i : ℕ)
    (hf : ∀ a ∈ l, (f a).length = n) :
    (l.flatMap f)[i * n + j]? = l[i]?.bind fun a => (f a)[j]? := by
  induction l generalizing i with
  | nil => rfl
  | cons a l ih =>
    obtain ⟨ha, hl⟩ := List.forall_mem_cons.mp hf
    rw [List.flatMap_cons]
    cases i with
    | zero =>
      rw [Nat.zero_mul, Nat.zero_add, List.getElem?_append_left (by omega)]
      rfl
    | succ i =>
      rw [List.getElem?_append_right (by rw [ha, Nat.add_mul]; omega), ha,
        show (i + 1) * n + j - n = i * n + j by rw [Nat.add_mul]; omega, ih i hl]
      rfl

theorem length_flatMap_of_length {γ : Type*} {f : γ → List β} {n : ℕ} (l : List γ)
    (hf : ∀ a ∈ l, (f a).length = n) : (l.flatMap f).length = l.length * n := by
  induction l with
  | nil => simp
  | cons a l ih =>
    obtain ⟨ha, hl⟩ := List.forall_mem_cons.mp hf
    rw [List.flatMap_cons, List.length_append, ha, ih hl, List.length_cons, Nat.add_mul]
    omega

/-- Piece `i` of pieces of `n` places each. -/
theorem take_drop_flatMap {γ : Type*} {f : γ → List β} {n : ℕ} {l : List γ} {i : ℕ} {a : γ}
    (hf : ∀ a, (f a).length = n) (ha : l[i]? = some a) :
    ((l.flatMap f).drop (n * i)).take n = f a := by
  induction l generalizing i with
  | nil => cases ha
  | cons b l ih =>
    rw [List.flatMap_cons]
    cases i with
    | zero =>
      obtain rfl := Option.some.inj ha
      rw [Nat.mul_zero, List.drop_zero, List.take_append_of_le_length (hf b).ge,
        List.take_of_length_le (hf b).le]
    | succ i =>
      rw [Nat.mul_succ, Nat.add_comm, ← List.drop_drop, List.drop_append_of_le_length (hf b).ge,
        List.drop_of_length_le (hf b).le, List.nil_append]
      exact ih ha

end Reblock
