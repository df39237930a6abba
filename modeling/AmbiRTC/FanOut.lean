/-
AmbiRTC/FanOut.lean

Fanning items out to `K` workers, each of which takes every item once and in
order, and finishing each item when the last worker is done with it.

An item in flight has been dispatched and not released yet.  Every worker has
its own queue of items still to do; the one that turns out to be the last to do
an item holds it until it releases it.  The queues are what is left, for each
worker, of the one sequence in flight: all are suffixes of it (`Ok`).

Main results: the item being finished is the oldest in flight and has one
finisher (`Ok.head`, `Ok.finisher_unique`), and dispatching, doing and releasing
keep `Ok` (`Ok.dispatch`, `Ok.finish`, `Ok.release`), with one worker less to
come each time one is done (`left_finish_self`).
-/
import Mathlib.Data.Fintype.Card
import Mathlib.Data.List.Infix

namespace FanOut

variable {α : Type*} {K : ℕ}

/-- Items in flight, oldest first, what each worker has still to do, and the
item it is the last to have done. -/
@[ext]
structure Fan (α : Type*) (K : ℕ) where
  flight : List α
  todo : Fin K → List α
  last : Fin K → Option α

namespace Fan

/-- The workers that have not done an item yet. -/
def left [DecidableEq α] (x : Fan α K) (a : α) : ℕ :=
  (Finset.univ.filter fun w => a ∈ x.todo w).card

/-- What a worker holds: the item it is finishing, then those it has to do. -/
def held (x : Fan α K) (w : Fin K) : List α := (x.last w).toList ++ x.todo w

/-- Hand an item to every worker. -/
def dispatch (x : Fan α K) (a : α) : Fan α K where
  flight := x.flight ++ [a]
  todo w := x.todo w ++ [a]
  last := x.last

/-- Worker `w` is done with the first of its items; it keeps it if it is the last. -/
def finish (x : Fan α K) (w : Fin K) (isLast : Bool) : Fan α K where
  flight := x.flight
  todo := Function.update x.todo w (x.todo w).tail
  last := if isLast then Function.update x.last w (x.todo w).head? else x.last

/-- Worker `w` lets go of the item it has finished. -/
def release [DecidableEq α] (x : Fan α K) (w : Fin K) : Fan α K where
  flight := match x.last w with
    | some a => x.flight.erase a
    | none => x.flight
  todo := x.todo
  last := Function.update x.last w none

/-- The queues are what is left of the sequence in flight. -/
structure Ok (x : Fan α K) : Prop where
  nodup : x.flight.Nodup
  suffix : ∀ w, x.held w <:+ x.flight
  holder : ∀ a ∈ x.flight, ∃ w, a ∈ x.held w
  done : ∀ w a, x.last w = some a → ∀ w', a ∉ x.todo w'
  unique : ∀ w w' a, x.last w = some a → x.last w' = some a → w = w'

variable {x : Fan α K}

/-! ### Who holds what -/

theorem mem_held {w : Fin K} {a : α} : a ∈ x.held w ↔ x.last w = some a ∨ a ∈ x.todo w := by
  rw [held, List.mem_append, Option.mem_toList]

theorem Ok.mem_flight (h : Ok x) {w : Fin K} {a : α} (ha : a ∈ x.held w) : a ∈ x.flight :=
  (h.suffix w).subset ha

theorem Ok.todo_suffix (h : Ok x) (w : Fin K) : x.todo w <:+ x.flight :=
  (List.suffix_append _ _).trans (h.suffix w)

theorem Ok.todo_nodup (h : Ok x) (w : Fin K) : (x.todo w).Nodup :=
  h.nodup.sublist (h.todo_suffix w).sublist

/-- **The item being finished is the oldest in flight**: an older one would have
a holder that has not come to the finished item yet, but everybody has. -/
theorem Ok.head (h : Ok x) {w : Fin K} {a : α} (ha : x.last w = some a) :
    ∃ rest, x.flight = a :: rest := by
  have hmem : a ∈ x.flight := h.mem_flight (mem_held.mpr (Or.inl ha))
  obtain ⟨pre, post, hsplit⟩ := List.append_of_mem hmem
  cases pre with
  | nil => exact ⟨post, hsplit⟩
  | cons b pre =>
    exfalso
    have hnodup := h.nodup
    rw [hsplit, List.cons_append] at hnodup
    have hbpost : b ∉ pre ++ a :: post := (List.nodup_cons.mp hnodup).1
    obtain ⟨w', hw'⟩ := h.holder b (by rw [hsplit]; simp)
    -- what holds the older `b` holds everything after it, so `a` as well
    have hafter : a ∈ x.held w' ∧ (x.held w' = b :: (pre ++ a :: post)) := by
      obtain ⟨front, hfront⟩ := h.suffix w'
      rw [hsplit, List.cons_append] at hfront
      cases front with
      | nil =>
        rw [List.nil_append] at hfront
        exact ⟨by rw [hfront]; simp, hfront⟩
      | cons c front =>
        have hrest := (List.cons.inj hfront).2
        exact absurd (by rw [← hrest]; exact List.mem_append_right _ hw') hbpost
    have hnot := h.done w a ha w'
    rcases mem_held.mp hafter.1 with hlast | htodo
    · -- then `w'` is finishing `a`, not `b`
      have hw'eq := h.unique w w' a ha hlast
      have heq := hafter.2
      rw [held, hlast] at heq
      have hab : a = b := (List.cons.inj heq).1
      exact hbpost (by rw [← hab]; simp)
    · exact hnot htodo

/-- What a finisher holds is everything in flight. -/
theorem Ok.todo_of_last (h : Ok x) {w : Fin K} {a : α} (ha : x.last w = some a) :
    x.flight = a :: x.todo w := by
  obtain ⟨rest, hrest⟩ := h.head ha
  obtain ⟨front, hfront⟩ := h.suffix w
  rw [held, ha, hrest] at hfront
  cases front with
  | nil => exact hrest.trans hfront.symm
  | cons c front =>
    have hnodup := h.nodup
    rw [hrest] at hnodup
    have hin : a ∈ rest := by
      rw [← (List.cons.inj hfront).2]
      simp
    exact absurd hin (List.nodup_cons.mp hnodup).1

/-- **An item has one finisher**, and there is only one item being finished. -/
theorem Ok.finisher_unique (h : Ok x) {w w' : Fin K} {a b : α} (ha : x.last w = some a)
    (hb : x.last w' = some b) : w = w' ∧ a = b := by
  have hab : a = b := by
    have heq := (h.todo_of_last ha).symm.trans (h.todo_of_last hb)
    exact (List.cons.inj heq).1
  subst hab
  exact ⟨h.unique w w' a ha hb, rfl⟩

/-! ### Dispatching -/

theorem Ok.dispatch (h : Ok x) (hK : 0 < K) {a : α} (ha : a ∉ x.flight) : Ok (x.dispatch a) where
  nodup := by
    rw [Fan.dispatch, List.nodup_append]
    refine ⟨h.nodup, List.nodup_singleton a, fun b hb c hc => ?_⟩
    rw [List.mem_singleton.mp hc]
    rintro rfl
    exact ha hb
  suffix w := by
    obtain ⟨front, hfront⟩ := h.suffix w
    exact ⟨front, by simp only [held, Fan.dispatch, ← hfront, List.append_assoc]⟩
  holder b hb := by
    rcases List.mem_append.mp hb with hb | hb
    · obtain ⟨w, hw⟩ := h.holder b hb
      exact ⟨w, mem_held.mpr ((mem_held.mp hw).imp_right fun htodo => List.mem_append_left _ htodo)⟩
    · exact ⟨⟨0, hK⟩, mem_held.mpr (Or.inr (List.mem_append_right _ hb))⟩
  done w b hb w' := by
    intro hin
    rcases List.mem_append.mp hin with hin | hin
    · exact h.done w b hb w' hin
    · rw [List.mem_singleton.mp hin] at hb
      exact ha (h.mem_flight (mem_held.mpr (Or.inl hb)))
  unique := h.unique

theorem left_dispatch_self [DecidableEq α] (x : Fan α K) (a : α) : (x.dispatch a).left a = K := by
  rw [left, Finset.filter_true_of_mem]
  · exact Finset.card_fin K
  · intro w _
    simp [Fan.dispatch]

theorem left_dispatch_ne [DecidableEq α] (x : Fan α K) {a b : α} (hab : b ≠ a) :
    (x.dispatch a).left b = x.left b := by
  simp only [left, Fan.dispatch, List.mem_append, List.mem_singleton, hab, or_false]

/-! ### Doing an item -/

theorem todo_finish (x : Fan α K) (w w' : Fin K) (isLast : Bool) :
    (x.finish w isLast).todo w' = if w' = w then (x.todo w).tail else x.todo w' := by
  show Function.update x.todo w (x.todo w).tail w' = _
  by_cases hw : w' = w
  · subst hw
    rw [if_pos rfl, Function.update_self]
  · rw [if_neg hw, Function.update_of_ne hw]

/-- After its turn the item is gone from the worker's queue. -/
theorem Ok.mem_todo_finish (h : Ok x) {w w' : Fin K} {a b : α} {rest : List α}
    (htodo : x.todo w = a :: rest) (isLast : Bool) :
    b ∈ (x.finish w isLast).todo w' ↔ b ∈ x.todo w' ∧ ¬ (w' = w ∧ b = a) := by
  rw [todo_finish]
  by_cases hw : w' = w
  · subst hw
    have hnodup := h.todo_nodup w'
    rw [htodo] at hnodup ⊢
    rw [if_pos rfl, List.tail_cons, List.mem_cons]
    constructor
    · intro hb
      refine ⟨Or.inr hb, ?_⟩
      rintro ⟨-, rfl⟩
      exact (List.nodup_cons.mp hnodup).1 hb
    · rintro ⟨rfl | hb, hne⟩
      · exact absurd ⟨rfl, rfl⟩ hne
      · exact hb
  · rw [if_neg hw]
    simp [hw]

theorem Ok.left_finish_self [DecidableEq α] (h : Ok x) {w : Fin K} {a : α} {rest : List α}
    (htodo : x.todo w = a :: rest) (isLast : Bool) :
    (x.finish w isLast).left a + 1 = x.left a := by
  have heq : (Finset.univ.filter fun w' => a ∈ (x.finish w isLast).todo w')
      = (Finset.univ.filter fun w' => a ∈ x.todo w').erase w := by
    ext w'
    simp only [Finset.mem_filter, Finset.mem_univ, true_and, Finset.mem_erase,
      h.mem_todo_finish htodo, and_true]
    exact And.comm
  rw [left, heq]
  exact Finset.card_erase_add_one (by simp [htodo])

theorem Ok.left_finish_ne [DecidableEq α] (h : Ok x) {w : Fin K} {a b : α} {rest : List α}
    (htodo : x.todo w = a :: rest) (isLast : Bool) (hab : b ≠ a) :
    (x.finish w isLast).left b = x.left b := by
  simp only [left, h.mem_todo_finish htodo, hab, and_false, not_false_eq_true, and_true]

theorem left_eq_zero_iff [DecidableEq α] {a : α} : x.left a = 0 ↔ ∀ w, a ∉ x.todo w := by
  rw [left, Finset.card_eq_zero, Finset.filter_eq_empty_iff]
  simp

/-- A worker that is doing its items keeps the last one it did if nobody else
has it to do. -/
theorem Ok.finish [DecidableEq α] (h : Ok x) {w : Fin K} {a : α} {rest : List α}
    (hfree : x.last w = none) (htodo : x.todo w = a :: rest) {isLast : Bool}
    (hlast : isLast = true ↔ x.left a = 1) : Ok (x.finish w isLast) := by
  have hself := h.left_finish_self htodo isLast
  have hrest : rest <:+ x.flight := by
    have := h.todo_suffix w
    rw [htodo] at this
    exact (List.suffix_cons a rest).trans this
  -- who is recorded as a finisher afterwards
  have hlast_eq : ∀ w' b, (x.finish w isLast).last w' = some b ↔
      x.last w' = some b ∨ (isLast = true ∧ w' = w ∧ b = a) := by
    intro w' b
    rw [Fan.finish]
    cases isLast with
    | false => simp
    | true =>
      by_cases hw : w' = w
      · subst hw
        simp only [if_true, Function.update_self, htodo, List.head?_cons, hfree, Option.some.injEq,
          true_and, reduceCtorEq, false_or]
        exact eq_comm
      · simp [hw]
  -- an item only this worker was left with has no finisher yet
  have hnew : isLast = true → ∀ w', a ∉ (x.finish w isLast).todo w' := by
    intro hl
    have := hlast.mp hl
    exact left_eq_zero_iff.mp (by omega)
  refine ⟨h.nodup, fun w' => ?_, fun b hb => ?_, fun w' b hb w'' => ?_, fun w' w'' b hb hb' => ?_⟩
  · by_cases hw : w' = w
    · subst hw
      have hsuffix := h.suffix w'
      rw [held, hfree, htodo] at hsuffix
      cases isLast with
      | true =>
        rw [held, todo_finish, if_pos rfl, htodo]
        simpa [Fan.finish, htodo] using hsuffix
      | false =>
        rw [held, todo_finish, if_pos rfl, htodo]
        simpa [Fan.finish, hfree] using hrest
    · have hkeep : (x.finish w isLast).held w' = x.held w' := by
        rw [held, held, todo_finish, if_neg hw]
        rw [Fan.finish]
        cases isLast with
        | true => simp [Function.update_of_ne hw]
        | false => rfl
      rw [hkeep]
      exact h.suffix w'
  · obtain ⟨w', hw'⟩ := h.holder b hb
    by_cases hba : b = a
    · -- somebody else has it to do, or this worker keeps it
      subst hba
      by_cases hl : isLast = true
      · exact ⟨w, mem_held.mpr (Or.inl ((hlast_eq w b).mpr (Or.inr ⟨hl, rfl, rfl⟩)))⟩
      · have hne : x.left b ≠ 1 := fun h1 => hl (hlast.mpr h1)
        have hpos : (x.finish w isLast).left b ≠ 0 := by omega
        rw [ne_eq, left_eq_zero_iff] at hpos
        push Not at hpos
        obtain ⟨w'', hw''⟩ := hpos
        exact ⟨w'', mem_held.mpr (Or.inr hw'')⟩
    · refine ⟨w', mem_held.mpr ?_⟩
      rcases mem_held.mp hw' with hb' | hb'
      · exact Or.inl ((hlast_eq w' b).mpr (Or.inl hb'))
      · exact Or.inr ((h.mem_todo_finish htodo isLast).mpr ⟨hb', fun hboth => hba hboth.2⟩)
  · intro hin
    rcases (hlast_eq w' b).mp hb with hb' | ⟨hl, -, rfl⟩
    · exact h.done w' b hb' w'' ((h.mem_todo_finish htodo isLast).mp hin).1
    · exact hnew hl w'' hin
  · rcases (hlast_eq w' b).mp hb with h1 | ⟨-, hw1, hb1⟩ <;>
      rcases (hlast_eq w'' b).mp hb' with h2 | ⟨-, hw2, hb2⟩
    · exact h.unique w' w'' b h1 h2
    · exact absurd (by rw [hb2, htodo]; simp) (h.done w' b h1 w)
    · exact absurd (by rw [hb1, htodo]; simp) (h.done w'' b h2 w)
    · rw [hw1, hw2]

/-! ### Releasing -/

theorem Ok.flight_release [DecidableEq α] (h : Ok x) {w : Fin K} {a : α}
    (ha : x.last w = some a) : (x.release w).flight = x.todo w := by
  rw [release, ha]
  simp only
  rw [h.todo_of_last ha, List.erase_cons_head]

theorem Ok.release [DecidableEq α] (h : Ok x) {w : Fin K} {a : α} (ha : x.last w = some a) :
    Ok (x.release w) := by
  have hflight := h.flight_release ha
  have hall := h.todo_of_last ha
  have hlast_eq : ∀ w' b, (x.release w).last w' = some b ↔ w' ≠ w ∧ x.last w' = some b := by
    intro w' b
    rw [Fan.release]
    by_cases hw : w' = w
    · subst hw
      simp
    · simp [hw]
  -- nobody else is finishing anything
  have hnone : ∀ w' b, (x.release w).last w' ≠ some b := by
    intro w' b hb
    obtain ⟨hne, hb'⟩ := (hlast_eq w' b).mp hb
    exact hne (h.finisher_unique hb' ha).1
  have hheld : ∀ w', (x.release w).held w' = x.todo w' := by
    intro w'
    rcases hl : (x.release w).last w' with - | b
    · rw [held, hl]
      rfl
    · exact absurd hl (hnone w' b)
  refine ⟨?_, fun w' => ?_, fun b hb => ?_, fun w' b hb => absurd hb (hnone w' b),
    fun w' w'' b hb => absurd hb (hnone w' b)⟩
  · rw [hflight]
    exact h.todo_nodup w
  · rw [hheld, hflight]
    have hsuffix := h.todo_suffix w'
    rw [hall] at hsuffix
    obtain ⟨front, hfront⟩ := hsuffix
    cases front with
    | nil =>
      -- a queue of everything in flight would still have the finished item
      rw [List.nil_append] at hfront
      exact absurd (by rw [hfront]; exact List.mem_cons_self) (h.done w a ha w')
    | cons c front => exact ⟨front, (List.cons.inj hfront).2⟩
  · rw [hflight] at hb
    exact ⟨w, by rw [hheld]; exact hb⟩

end Fan

end FanOut
