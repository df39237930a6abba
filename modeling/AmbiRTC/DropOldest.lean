/-
AmbiRTC/DropOldest.lean

Pushing into a bounded first-in-first-out queue without ever waiting: try to
enqueue; if the queue is full, try to remove the oldest item; try to enqueue
again, and if the queue is full even now, drop the new item.  Each of the three
is one atomic step, and other producers and the consumer may act in between.

Main results: a step keeps the queue within its capacity (`length_push_le`),
loses no item (`push_perm`), only appends and removes (`queue_push_sublist`), and
brings the push nearer to its end (`push_spends`).
-/
import Mathlib.Data.List.Perm.Basic

namespace DropOldest

variable {α : Type*}

/-- How far a push has come. -/
inductive Stage where
  | attempt
  | evict
  | retry
  deriving DecidableEq, Repr

/-- How many steps a push may still take. -/
def Stage.left : Stage → ℕ
  | .attempt => 3
  | .evict => 2
  | .retry => 1

/-- What a step of a push leaves: the queue, the next stage unless the push is
over, and the item that was displaced, if one was. -/
structure Pushed (α : Type*) where
  queue : List α
  next : Option Stage
  dropped : Option α

/-- One step of pushing `x`. -/
def push (cap : ℕ) (queue : List α) (x : α) : Stage → Pushed α
  | .attempt =>
    if queue.length < cap then ⟨queue ++ [x], none, none⟩ else ⟨queue, some .evict, none⟩
  | .evict =>
    match queue with
    | [] => ⟨[], some .retry, none⟩
    | old :: rest => ⟨rest, some .retry, some old⟩
  | .retry =>
    if queue.length < cap then ⟨queue ++ [x], none, none⟩ else ⟨queue, none, some x⟩

variable {cap : ℕ} {queue : List α} {x : α} {stage : Stage}

/-- **What a step of a push does**: nothing yet, enqueue, displace the oldest, or
give up on the new item. -/
theorem push_cases (cap : ℕ) (queue : List α) (x : α) (stage : Stage) :
    (∃ next, push cap queue x stage = ⟨queue, some next, none⟩) ∨
    (queue.length < cap ∧ push cap queue x stage = ⟨queue ++ [x], none, none⟩) ∨
    (∃ old rest, queue = old :: rest ∧
      push cap queue x stage = ⟨rest, some .retry, some old⟩) ∨
    push cap queue x stage = ⟨queue, none, some x⟩ := by
  cases stage with
  | attempt =>
    by_cases hroom : queue.length < cap
    · exact Or.inr (Or.inl ⟨hroom, if_pos hroom⟩)
    · exact Or.inl ⟨.evict, if_neg hroom⟩
  | evict =>
    cases queue with
    | nil => exact Or.inl ⟨.retry, rfl⟩
    | cons old rest => exact Or.inr (Or.inr (Or.inl ⟨old, rest, rfl, rfl⟩))
  | retry =>
    by_cases hroom : queue.length < cap
    · exact Or.inr (Or.inl ⟨hroom, if_pos hroom⟩)
    · exact Or.inr (Or.inr (Or.inr (if_neg hroom)))

/-- The queue never grows beyond its capacity. -/
theorem length_push_le (h : queue.length ≤ cap) :
    (push cap queue x stage).queue.length ≤ cap := by
  rcases push_cases cap queue x stage with ⟨next, hp⟩ | ⟨hroom, hp⟩ | ⟨old, rest, rfl, hp⟩ | hp
  · rw [hp]
    exact h
  · rw [hp, List.length_append, List.length_singleton]
    exact hroom
  · rw [hp]
    exact Nat.le_of_succ_le h
  · rw [hp]
    exact h

/-- The queue only loses items, and only the pushed one is added, at its end. -/
theorem queue_push_sublist :
    (push cap queue x stage).queue.Sublist (queue ++ [x]) := by
  rcases push_cases cap queue x stage with ⟨next, hp⟩ | ⟨-, hp⟩ | ⟨old, rest, rfl, hp⟩ | hp
  · rw [hp]
    exact List.sublist_append_left _ _
  · rw [hp]
  · rw [hp]
    exact (List.sublist_append_left _ _).trans (List.sublist_cons_self _ _)
  · rw [hp]
    exact List.sublist_append_left _ _

/-- No item is lost: it is queued, displaced, or still being pushed. -/
theorem push_perm :
    ((push cap queue x stage).queue ++ (push cap queue x stage).dropped.toList
      ++ if (push cap queue x stage).next.isSome then [x] else []).Perm (queue ++ [x]) := by
  rcases push_cases cap queue x stage with ⟨next, hp⟩ | ⟨-, hp⟩ | ⟨old, rest, rfl, hp⟩ | hp
  · rw [hp]
    simp
  · rw [hp]
    simp
  · rw [hp]
    simp only [Option.toList_some, Option.isSome_some, if_true, List.cons_append]
    exact List.Perm.append_right [x] (List.perm_append_singleton old rest)
  · rw [hp]
    simp

/-- **A push comes to an end.**  With `d` for an item that is queued or still to be, and
at most as much for one that was displaced, each step uses something up. -/
theorem push_spends (cap : ℕ) (queue : List α) (x : α) (stage : Stage) {d e : ℕ} (he : e ≤ d) :
    d * (push cap queue x stage).queue.length
        + (push cap queue x stage).next.elim 0 (fun stage' => stage'.left + d)
        + (push cap queue x stage).dropped.elim 0 (fun _ => e)
      < d * queue.length + (stage.left + d) := by
  cases stage with
  | attempt =>
    by_cases hroom : queue.length < cap
    · simp only [push, if_pos hroom, List.length_append, List.length_singleton, Nat.mul_add,
        Option.elim, Stage.left]
      omega
    · simp only [push, if_neg hroom, Option.elim, Stage.left]
      omega
  | evict =>
    cases queue with
    | nil =>
      simp only [push, Option.elim, Stage.left]
      omega
    | cons old rest =>
      simp only [push, List.length_cons, Nat.mul_add, Option.elim, Stage.left]
      omega
  | retry =>
    by_cases hroom : queue.length < cap
    · simp only [push, if_pos hroom, List.length_append, List.length_singleton, Nat.mul_add,
        Option.elim, Stage.left]
      omega
    · simp only [push, if_neg hroom, Option.elim, Stage.left]
      omega

end DropOldest
