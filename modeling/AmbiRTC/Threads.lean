/-
AmbiRTC/Threads.lean

Any number of threads over a shared state.  A call starts a thread; from then on
the thread takes its steps one at a time, in any order with the steps of the
others.  A step is given by `advance`: what the thread does to the shared state,
and where it goes on.

Main results: an invariant of the shared state and one of every thread, when no
thread disturbs those of the others (`Run.modular`); a mark that some thread answers
for, once it is set or while it is (`Run.witness`, `Run.witness_while`); what a call
brings and no step drops (`Run.present_of_called`); and what shared state and threads
have between them, conserved or rationed (`Run.tokens_eq`, `Run.weight_le`).
-/
import AmbiRTC.Runs
import Mathlib.Algebra.BigOperators.Group.Multiset.Basic
import Mathlib.Algebra.GroupWithZero.Nat

namespace Threads

open Runs

variable {σ τ κ α β : Type*}

/-- A shared state and the threads over it. -/
structure System (σ τ : Type*) where
  shared : σ
  threads : List τ

/-- A new call, or a step of thread `i`, with what the outside decides in it. -/
inductive Action (κ α : Type*) where
  | call (k : κ)
  | next (i : ℕ) (a : α)

/-- The call of an action. -/
def Action.called : Action κ α → Option κ
  | .call k => some k
  | .next _ _ => none

/-- Take an action. -/
def step (entry : κ → τ) (advance : σ → τ → α → Option (σ × τ)) (s : System σ τ) :
    Action κ α → Option (System σ τ)
  | .call k => some { s with threads := s.threads ++ [entry k] }
  | .next i a =>
    (s.threads[i]?).bind fun t =>
      (advance s.shared t a).map fun r => ⟨r.1, s.threads.set i r.2⟩

variable {entry : κ → τ} {advance : σ → τ → α → Option (σ × τ)} {s s' : System σ τ}

/-! ### One step -/

/-- What an action does. -/
inductive Stepped (entry : κ → τ) (advance : σ → τ → α → Option (σ × τ)) :
    System σ τ → Action κ α → System σ τ → Prop
  | call {s : System σ τ} (k : κ) :
      Stepped entry advance s (.call k) ⟨s.shared, s.threads ++ [entry k]⟩
  | next {shared shared' : σ} {front back : List τ} {t t' : τ} {a : α}
      (hadv : advance shared t a = some (shared', t')) :
      Stepped entry advance ⟨shared, front ++ t :: back⟩ (.next front.length a)
        ⟨shared', front ++ t' :: back⟩

theorem step_cases {a : Action κ α} (h : step entry advance s a = some s') :
    Stepped entry advance s a s' := by
  obtain ⟨shared, threads⟩ := s
  cases a with
  | call k =>
    obtain rfl := Option.some.inj h
    exact .call k
  | next i a =>
    obtain ⟨t, ht, h⟩ := Option.bind_eq_some_iff.mp h
    obtain ⟨⟨shared', t'⟩, hadv, rfl⟩ := Option.map_eq_some_iff.mp h
    obtain ⟨hi, rfl⟩ := List.getElem?_eq_some_iff.mp ht
    -- the thread, with those before and behind it
    obtain ⟨front, back, hthreads, hlen⟩ : ∃ front back,
        threads = front ++ threads[i] :: back ∧ front.length = i :=
      ⟨threads.take i, threads.drop (i + 1), by simp, List.length_take_of_le hi.le⟩
    generalize threads[i] = t at hthreads hadv
    subst hthreads hlen
    simp only [List.set_append_right _ _ le_rfl, Nat.sub_self, List.set_cons_zero]
    exact .next hadv

/-! ### Rules -/

/-- One step of the rule below; a call has to bring `L` with it. -/
theorem modular_step {I : σ → Prop} {L : σ → τ → Prop} {a : Action κ α}
    (hstep : ∀ s t a s' t', I s → L s t → advance s t a = some (s', t') →
      I s' ∧ L s' t' ∧ ∀ u, L s u → L s' u)
    (h : step entry advance s a = some s') (hcall : ∀ k, a = .call k → L s.shared (entry k))
    (hs : I s.shared ∧ ∀ t ∈ s.threads, L s.shared t) :
    I s'.shared ∧ ∀ t ∈ s'.threads, L s'.shared t := by
  obtain ⟨hI, hL⟩ := hs
  cases step_cases h with
  | call k =>
    refine ⟨hI, fun t ht => ?_⟩
    rcases List.mem_append.mp ht with ht | ht
    · exact hL t ht
    · obtain rfl := List.mem_singleton.mp ht
      exact hcall k rfl
  | @next shared shared' front back t t' a hadv =>
    obtain ⟨hI', hL', hothers⟩ := hstep shared t a shared' t' hI (hL t (by simp)) hadv
    refine ⟨hI', fun u hu => ?_⟩
    rcases List.mem_append.mp hu with hu | hu
    · exact hothers u (hL u (by simp [hu]))
    · rcases List.mem_cons.mp hu with rfl | hu
      · exact hL'
      · exact hothers u (hL u (by simp [hu]))

/-- **The thread-modular rule.**  `I` holds of the shared state and `L` of every
thread, if each step keeps both for its own thread and `L` for all the others. -/
theorem Run.modular {I : σ → Prop} {L : σ → τ → Prop} {as : List (Action κ α)}
    (hentry : ∀ s k, I s → L s (entry k))
    (hstep : ∀ s t a s' t', I s → L s t → advance s t a = some (s', t') →
      I s' ∧ L s' t' ∧ ∀ u, L s u → L s' u)
    (hrun : Run (step entry advance) s as s') (hs : I s.shared ∧ ∀ t ∈ s.threads, L s.shared t) :
    I s'.shared ∧ ∀ t ∈ s'.threads, L s'.shared t := by
  refine hrun.invariant (I := fun s => I s.shared ∧ ∀ t ∈ s.threads, L s.shared t) ?_ hs
  exact fun s a s' hs h => modular_step hstep h (fun k _ => hentry s.shared k hs.1) hs

/-- **The witness rule.**  Where `M` has become true there is a thread with `Q`,
if the thread that makes it true has `Q` from then on. -/
theorem Run.witness {M : σ → Prop} {Q : τ → Prop} {as : List (Action κ α)}
    (hstep : ∀ s t a s' t', advance s t a = some (s', t') →
      (Q t → Q t') ∧ (M s' → M s ∨ Q t'))
    (hrun : Run (step entry advance) s as s') (hs : M s.shared → ∃ t ∈ s.threads, Q t) :
    M s'.shared → ∃ t ∈ s'.threads, Q t := by
  refine hrun.invariant (I := fun s => M s.shared → ∃ t ∈ s.threads, Q t) ?_ hs
  intro s a s' hinv h hM
  cases step_cases h with
  | call k =>
    obtain ⟨t, ht, hQ⟩ := hinv hM
    exact ⟨t, List.mem_append_left _ ht, hQ⟩
  | @next shared shared' front back t t' a hadv =>
    obtain ⟨hkeep, hmake⟩ := hstep shared t a shared' t' hadv
    rcases hmake hM with hold | hQ
    · obtain ⟨u, hu, hQ⟩ := hinv hold
      rcases List.mem_append.mp hu with hu | hu
      · exact ⟨u, by simp [hu], hQ⟩
      · rcases List.mem_cons.mp hu with rfl | hu
        · exact ⟨t', by simp, hkeep hQ⟩
        · exact ⟨u, by simp [hu], hQ⟩
    · exact ⟨t', by simp, hQ⟩

/-- **The witness rule, with an end.**  As long as `M` holds there is a thread with `Q`,
if a step that leaves `M` true either lets its thread keep `Q` or gives it to it. -/
theorem Run.witness_while {M : σ → Prop} {Q : τ → Prop} {as : List (Action κ α)}
    (hstep : ∀ s t a s' t', advance s t a = some (s', t') → M s' → (M s ∧ (Q t → Q t')) ∨ Q t')
    (hrun : Run (step entry advance) s as s') (hs : M s.shared → ∃ t ∈ s.threads, Q t) :
    M s'.shared → ∃ t ∈ s'.threads, Q t := by
  refine hrun.invariant (I := fun s => M s.shared → ∃ t ∈ s.threads, Q t) ?_ hs
  intro s a s' hinv h hM
  cases step_cases h with
  | call k =>
    obtain ⟨t, ht, hQ⟩ := hinv hM
    exact ⟨t, List.mem_append_left _ ht, hQ⟩
  | @next shared shared' front back t t' a hadv =>
    rcases hstep shared t a shared' t' hadv hM with ⟨hold, hkeep⟩ | hQ
    · obtain ⟨u, hu, hQ⟩ := hinv hold
      rcases List.mem_append.mp hu with hu | hu
      · exact ⟨u, by simp [hu], hQ⟩
      · rcases List.mem_cons.mp hu with rfl | hu
        · exact ⟨t', by simp, hkeep hQ⟩
        · exact ⟨u, by simp [hu], hQ⟩
    · exact ⟨t', by simp, hQ⟩

/-- One step of the rule below. -/
theorem present_step {H : σ → Prop} {Q : τ → Prop} {a : Action κ α}
    (hstep : ∀ t ∈ s.threads, ∀ a s' t', advance s.shared t a = some (s', t') →
      H s.shared ∨ Q t → H s' ∨ Q t')
    (h : step entry advance s a = some s') (hs : H s.shared ∨ ∃ t ∈ s.threads, Q t) :
    H s'.shared ∨ ∃ t ∈ s'.threads, Q t := by
  cases step_cases h with
  | call k => exact hs.imp_right fun ⟨t, ht, hQ⟩ => ⟨t, List.mem_append_left _ ht, hQ⟩
  | @next shared shared' front back t t' a hadv =>
    have hmoved : H shared ∨ Q t → H shared' ∨ ∃ u ∈ front ++ t' :: back, Q u := fun hor =>
      (hstep t (by simp) a shared' t' hadv hor).imp_right fun hQ => ⟨t', by simp, hQ⟩
    rcases hs with hH | ⟨u, hu, hQ⟩
    · exact hmoved (Or.inl hH)
    rcases List.mem_append.mp hu with hu | hu
    · exact Or.inr ⟨u, by simp [hu], hQ⟩
    · rcases List.mem_cons.mp hu with rfl | hu
      · exact hmoved (Or.inr hQ)
      · exact Or.inr ⟨u, by simp [hu], hQ⟩

/-- **The rule of presence.**  What a call brings is in the shared state or with some
thread from then on, if no step drops it. -/
theorem Run.present_of_called {H : σ → Prop} {Q : τ → Prop} {as : List (Action κ α)} {k : κ}
    (hstep : ∀ s t a s' t', advance s t a = some (s', t') → H s ∨ Q t → H s' ∨ Q t')
    (hrun : Run (step entry advance) s as s') (hentry : Q (entry k))
    (hk : k ∈ as.filterMap Action.called) : H s'.shared ∨ ∃ t ∈ s'.threads, Q t := by
  obtain ⟨a, ha, hcalled⟩ := List.mem_filterMap.mp hk
  obtain rfl : a = .call k := by
    cases a with
    | call k' => rw [Option.some.inj hcalled]
    | next i a => cases hcalled
  obtain ⟨as₁, as₂, rfl⟩ := List.append_of_mem ha
  obtain ⟨s₁, -, hrun⟩ := run_append_iff.mp hrun
  obtain ⟨s₂, hs₂, hrun⟩ := run_cons_iff.mp hrun
  obtain rfl := Option.some.inj hs₂
  exact hrun.invariant (I := fun s => H s.shared ∨ ∃ t ∈ s.threads, Q t)
    (fun s a s' hs h => present_step (fun t _ a s' t' => hstep s.shared t a s' t') h hs)
    (Or.inr ⟨entry k, by simp, hentry⟩)

/-- The weight of the shared state and of the threads together. -/
def weight (kept : σ → ℕ) (held : τ → ℕ) (s : System σ τ) : ℕ :=
  kept s.shared + (s.threads.map held).sum

/-- **Rationing.**  If no step adds weight, there is no more than at the start and what
the calls have brought. -/
theorem Run.weight_le {kept : σ → ℕ} {held : τ → ℕ} {as : List (Action κ α)}
    (hstep : ∀ s t a s' t', advance s t a = some (s', t') → kept s' + held t' ≤ kept s + held t)
    (hrun : Run (step entry advance) s as s') : weight kept held s'
      ≤ weight kept held s + ((as.filterMap Action.called).map fun k => held (entry k)).sum := by
  induction hrun with
  | nil s => simp
  | cons h _ ih =>
    refine ih.trans ?_
    cases step_cases h with
    | call k => simp [weight, Action.called, add_assoc]
    | @next shared shared' front back t t' a hadv =>
      have hle := hstep shared t a shared' t' hadv
      rw [List.filterMap_cons]
      refine Nat.add_le_add_right ?_ _
      simp only [weight, List.map_append, List.map_cons, List.sum_append, List.sum_cons]
      omega

/-- What the shared state keeps and the threads hold, taken together. -/
def tokens (kept : σ → Multiset β) (held : τ → Multiset β) (s : System σ τ) : Multiset β :=
  kept s.shared + (s.threads.map held).sum

/-- **Conservation.**  If no step makes or loses a token, there are those from
the start and those the calls have brought. -/
theorem Run.tokens_eq {kept : σ → Multiset β} {held : τ → Multiset β} {as : List (Action κ α)}
    (hstep : ∀ s t a s' t', advance s t a = some (s', t') →
      kept s' + held t' = kept s + held t)
    (hrun : Run (step entry advance) s as s') : tokens kept held s'
      = tokens kept held s + ((as.filterMap Action.called).map fun k => held (entry k)).sum := by
  induction hrun with
  | nil s => simp
  | cons h _ ih =>
    rw [ih]
    cases step_cases h with
    | call k => simp [tokens, Action.called, add_assoc]
    | @next shared shared' front back t t' a hadv =>
      have heq := hstep shared t a shared' t' hadv
      have htokens : tokens kept held ⟨shared', front ++ t' :: back⟩
          = tokens kept held ⟨shared, front ++ t :: back⟩ := by
        simp only [tokens, List.map_append, List.map_cons, List.sum_append, List.sum_cons]
        rw [add_left_comm, ← add_assoc (kept shared'), heq, add_assoc (kept shared),
          add_left_comm]
      rw [htokens, List.filterMap_cons]
      rfl

end Threads
