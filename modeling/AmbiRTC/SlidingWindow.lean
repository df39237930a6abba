/-
AmbiRTC/SlidingWindow.lean

A window of `W` consecutive numbers over an unbounded numbering.  Numbers arrive
in any order; one beyond the window makes it slide until it is the last in it,
one below the base is too late.  What the base leaves behind without having
arrived in time is lost.

Main results: `lost_arrive`, the loss of one slide, and `mem_log_iff`, which says
of a log that it holds what arrived in time.
-/
import Mathlib.Data.Finset.Card
import Mathlib.Data.Int.Interval
import Mathlib.Order.Interval.Finset.Basic

namespace SlidingWindow

/-! ### Counting in an interval -/

/-- How many numbers of `S` are in `[a, b)`. -/
def countIn (S : Finset ℤ) (a b : ℤ) : ℕ := (S.filter fun n => a ≤ n ∧ n < b).card

variable {S : Finset ℤ} {a b c n : ℤ}

theorem countIn_self : countIn S a a = 0 := by
  rw [countIn, Finset.card_eq_zero, Finset.filter_eq_empty_iff]
  intro n _
  omega

theorem countIn_split (hab : a ≤ b) (hbc : b ≤ c) :
    countIn S a c = countIn S a b + countIn S b c := by
  unfold countIn
  rw [← Finset.card_union_of_disjoint, ← Finset.filter_or]
  · congr 1
    refine Finset.filter_congr fun n _ => ?_
    omega
  · refine Finset.disjoint_filter.mpr fun n _ h => ?_
    omega

theorem countIn_succ : countIn S a (a + 1) = if a ∈ S then 1 else 0 := by
  have hfilter : (S.filter fun n => a ≤ n ∧ n < a + 1) = S.filter fun n => n = a :=
    Finset.filter_congr fun n _ => by omega
  rw [countIn, hfilter, Finset.filter_eq']
  split <;> rfl

/-- A window that moves on by one gives up its first number, and gains none where
the number behind it is not in `S`. -/
theorem countIn_slide {W : ℤ} (hW : 0 < W) (h : a + W ∉ S) :
    countIn S a (a + W) = countIn S a (a + 1) + countIn S (a + 1) (a + 1 + W) := by
  have hbeyond := @countIn_succ S (a + W)
  rw [if_neg h, show a + W + 1 = a + 1 + W by omega] at hbeyond
  have hfront := @countIn_split S a (a + 1) (a + 1 + W) (by omega) (by omega)
  have hback := @countIn_split S a (a + W) (a + 1 + W) (by omega) (by omega)
  omega

/-- Above all of `S` nothing is counted. -/
theorem countIn_eq_zero (h : ∀ n ∈ S, n < a) : countIn S a b = 0 := by
  rw [countIn, Finset.card_eq_zero, Finset.filter_eq_empty_iff]
  intro n hn
  have := h n hn
  omega

theorem countIn_le (hab : a ≤ b) : (countIn S a b : ℤ) ≤ b - a := by
  have hsub : (S.filter fun n => a ≤ n ∧ n < b) ⊆ Finset.Ico a b := by
    intro n hn
    rw [Finset.mem_Ico]
    exact (Finset.mem_filter.mp hn).2
  have hcard := Finset.card_le_card hsub
  rw [Int.card_Ico] at hcard
  unfold countIn
  omega

theorem countIn_insert (hn : n ∉ S) (hin : a ≤ n ∧ n < b) :
    countIn (insert n S) a b = countIn S a b + 1 := by
  rw [countIn, Finset.filter_insert, if_pos hin, Finset.card_insert_of_notMem, countIn]
  exact fun hmem => hn (Finset.mem_of_mem_filter n hmem)

theorem countIn_insert_of_le (hb : b ≤ n) : countIn (insert n S) a b = countIn S a b := by
  rw [countIn, Finset.filter_insert, if_neg (by omega), countIn]

/-! ### The log of a receiver that forgets nothing -/

/-- The first number, the base of the window, the highest number so far, and the
numbers that arrived when the base was not yet beyond them. -/
structure Log where
  first : ℤ
  base : ℤ
  high : ℤ
  inTime : Finset ℤ

namespace Log

/-- The first arrival. -/
def start (x : ℤ) : Log := ⟨x, x, x, {x}⟩

/-- A later arrival. -/
def arrive (W : ℤ) (l : Log) (x : ℤ) : Log :=
  if x < l.base then l
  else { l with
    base := max l.base (x + 1 - W)
    high := max l.high x
    inTime := insert x l.inTime }

/-- The log of a first arrival and those after it. -/
def of (W : ℤ) (first : ℤ) (xs : List ℤ) : Log := xs.foldl (arrive W) (start first)

/-- What is behind the base and did not arrive in time. -/
def lost (l : Log) : ℤ := l.base - l.first - countIn l.inTime l.first l.base

/-- What holds of every log: the window covers the highest number, and nothing is
outside of what has been passed. -/
structure Valid (W : ℤ) (l : Log) : Prop where
  first_le : l.first ≤ l.base
  base_le : l.base ≤ l.high
  high_lt : l.high < l.base + W
  first_le_of_mem : ∀ n ∈ l.inTime, l.first ≤ n
  le_high_of_mem : ∀ n ∈ l.inTime, n ≤ l.high
  high_mem : l.high ∈ l.inTime

variable {W : ℤ} {l : Log} {x first : ℤ} {xs : List ℤ}

theorem valid_start (hW : 0 < W) : (start x).Valid W := by
  refine ⟨le_rfl, le_rfl, lt_add_of_pos_right x hW, ?_, ?_, Finset.mem_singleton_self x⟩
  · intro n hn
    exact (Finset.mem_singleton.mp hn).ge
  · intro n hn
    exact (Finset.mem_singleton.mp hn).le

theorem arrive_of_lt (h : x < l.base) : l.arrive W x = l := if_pos h

theorem arrive_of_le (h : l.base ≤ x) : l.arrive W x = { l with
    base := max l.base (x + 1 - W)
    high := max l.high x
    inTime := insert x l.inTime } := if_neg (not_lt.mpr h)

theorem first_arrive : (l.arrive W x).first = l.first := by
  unfold arrive
  split <;> rfl

theorem base_le_arrive : l.base ≤ (l.arrive W x).base := by
  unfold arrive
  split
  · exact le_rfl
  · exact le_max_left _ _

theorem Valid.arrive (h : l.Valid W) (hW : 0 < W) : (l.arrive W x).Valid W := by
  have hbase := h.base_le
  have hhigh := h.high_lt
  rcases lt_or_ge x l.base with hlt | hle
  · rwa [arrive_of_lt hlt]
  rw [arrive_of_le hle]
  refine ⟨h.first_le.trans (le_max_left _ _), ?_, ?_, fun n hn => ?_, fun n hn => ?_, ?_⟩
  · show max l.base (x + 1 - W) ≤ max l.high x
    omega
  · show max l.high x < max l.base (x + 1 - W) + W
    omega
  · rcases Finset.mem_insert.mp hn with rfl | hn
    · exact h.first_le.trans hle
    · exact h.first_le_of_mem n hn
  · rcases Finset.mem_insert.mp hn with rfl | hn
    · exact le_max_right _ _
    · exact (h.le_high_of_mem n hn).trans (le_max_left _ _)
  · show max l.high x ∈ insert x l.inTime
    rcases le_total l.high x with hx | hx
    · rw [max_eq_right hx]
      exact Finset.mem_insert_self x _
    · rw [max_eq_left hx]
      exact Finset.mem_insert_of_mem h.high_mem

/-- **The loss of one arrival**: what the window slides over and did not hold. -/
theorem lost_arrive (h : l.Valid W) (hW : 0 < W) : (l.arrive W x).lost
    = l.lost + ((l.arrive W x).base - l.base - countIn l.inTime l.base (l.arrive W x).base) := by
  rcases lt_or_ge x l.base with hlt | hle
  · rw [arrive_of_lt hlt, countIn_self]
    omega
  have hbase := h.base_le
  have hhigh := h.high_lt
  rw [arrive_of_le hle]
  show max l.base (x + 1 - W) - l.first
      - countIn (insert x l.inTime) l.first (max l.base (x + 1 - W)) = _
  rw [countIn_insert_of_le (by omega), countIn_split h.first_le (le_max_left _ _), lost]
  push_cast
  omega

theorem of_concat : of W first (xs ++ [x]) = (of W first xs).arrive W x := List.foldl_append

theorem first_of : (of W first xs).first = first := by
  induction xs using List.reverseRecOn with
  | nil => rfl
  | append_singleton xs x ih => rw [of_concat, first_arrive, ih]

theorem valid_of (hW : 0 < W) : (of W first xs).Valid W := by
  induction xs using List.reverseRecOn with
  | nil => exact valid_start hW
  | append_singleton xs x ih =>
    rw [of_concat]
    exact ih.arrive hW

end Log

/-! ### The log in terms of the arrivals -/

/-- The base of the window after a first arrival and those after it. -/
def baseOf (W first : ℤ) (xs : List ℤ) : ℤ := xs.foldl (fun b x => max b (x + 1 - W)) first

/-- The highest number is the greatest one. -/
theorem isGreatest_foldl_max (first : ℤ) (xs : List ℤ) :
    IsGreatest {n | n ∈ first :: xs} (xs.foldl max first) := by
  induction xs using List.reverseRecOn with
  | nil => exact ⟨List.mem_singleton_self first, fun n hn => (List.mem_singleton.mp hn).le⟩
  | append_singleton xs x ih =>
    obtain ⟨hmem, hupper⟩ := ih
    rw [List.foldl_concat]
    constructor
    · show max (xs.foldl max first) x ∈ (first :: xs) ++ [x]
      rcases max_choice (xs.foldl max first) x with h | h
      · rw [h]
        exact List.mem_append_left _ hmem
      · rw [h]
        exact List.mem_append_right _ (List.mem_singleton_self x)
    · intro n hn
      rcases List.mem_append.mp (show n ∈ (first :: xs) ++ [x] from hn) with hn | hn
      · exact (hupper hn).trans (le_max_left _ _)
      · obtain rfl := List.mem_singleton.mp hn
        exact le_max_right _ _

/-- The number arrived when the base was not yet beyond it. -/
def InTime (W first : ℤ) (xs : List ℤ) (n : ℤ) : Prop :=
  n = first ∨ ∃ before after, xs = before ++ n :: after ∧ baseOf W first before ≤ n

namespace Log

variable {W x first : ℤ} {xs : List ℤ} {n : ℤ}

theorem base_of (hW : 0 < W) : (of W first xs).base = baseOf W first xs := by
  induction xs using List.reverseRecOn with
  | nil => rfl
  | append_singleton xs x ih =>
    rw [of_concat, baseOf, List.foldl_concat, ← baseOf, ← ih]
    rcases lt_or_ge x (of W first xs).base with hlt | hle
    · rw [arrive_of_lt hlt, max_eq_left (by omega)]
    · rw [arrive_of_le hle]

theorem high_of (hW : 0 < W) : (of W first xs).high = xs.foldl max first := by
  induction xs using List.reverseRecOn with
  | nil => rfl
  | append_singleton xs x ih =>
    have hbase := (@valid_of W first xs hW).base_le
    rw [of_concat, List.foldl_concat, ← ih]
    rcases lt_or_ge x (of W first xs).base with hlt | hle
    · rw [arrive_of_lt hlt, max_eq_left (by omega)]
    · rw [arrive_of_le hle]

/-- The log holds what arrived in time, and nothing else. -/
theorem mem_log_iff (hW : 0 < W) : n ∈ (of W first xs).inTime ↔ InTime W first xs n := by
  induction xs using List.reverseRecOn with
  | nil =>
    refine ⟨fun h => Or.inl (Finset.mem_singleton.mp h), ?_⟩
    rintro (rfl | ⟨before, after, h, -⟩)
    · exact Finset.mem_singleton_self n
    · cases before <;> cases h
  | append_singleton xs x ih =>
    have hconcat : InTime W first (xs ++ [x]) n
        ↔ InTime W first xs n ∨ n = x ∧ baseOf W first xs ≤ x := by
      constructor
      · rintro (rfl | ⟨before, after, h, hbase⟩)
        · exact Or.inl (Or.inl rfl)
        · rcases List.eq_nil_or_concat after with rfl | ⟨after, y, rfl⟩
          · obtain ⟨rfl, hlast⟩ := List.append_inj' h rfl
            obtain rfl := (List.cons.inj hlast).1
            exact Or.inr ⟨rfl, hbase⟩
          · rw [List.concat_eq_append, ← List.cons_append, ← List.append_assoc] at h
            obtain ⟨rfl, -⟩ := List.append_inj' h rfl
            exact Or.inl (Or.inr ⟨before, after, rfl, hbase⟩)
      · rintro ((rfl | ⟨before, after, rfl, hbase⟩) | ⟨rfl, hbase⟩)
        · exact Or.inl rfl
        · exact Or.inr ⟨before, after ++ [x], by simp, hbase⟩
        · exact Or.inr ⟨xs, [], rfl, hbase⟩
    rw [hconcat, ← ih, of_concat, ← base_of hW]
    rcases lt_or_ge x (of W first xs).base with hlt | hle
    · rw [arrive_of_lt hlt]
      exact (or_iff_left fun h => absurd h.2 (not_le.mpr hlt)).symm
    · rw [arrive_of_le hle, Finset.mem_insert]
      refine ⟨fun h => h.elim (fun hx => Or.inr ⟨hx, hle⟩) Or.inl, ?_⟩
      rintro (h | ⟨h, -⟩)
      · exact Or.inr h
      · exact Or.inl h

/-- Of the numbers the base has not passed every arrival is in the log. -/
theorem mem_log_iff_of_base_le (hW : 0 < W) (hn : baseOf W first xs ≤ n) :
    n ∈ (of W first xs).inTime ↔ n ∈ first :: xs := by
  induction xs using List.reverseRecOn with
  | nil => exact Finset.mem_singleton.trans List.mem_singleton.symm
  | append_singleton xs x ih =>
    rw [← base_of hW, of_concat] at hn
    have hle := base_le_arrive.trans hn
    rw [base_of hW] at hle
    have hmem := ih hle
    rw [← List.cons_append, List.mem_append, List.mem_singleton, ← hmem, of_concat]
    rcases lt_or_ge x (of W first xs).base with hlt | hge
    · rw [arrive_of_lt hlt]
      rw [← base_of hW] at hle
      exact (or_iff_left (by omega)).symm
    · rw [arrive_of_le hge, Finset.mem_insert, or_comm]

end Log

end SlidingWindow
