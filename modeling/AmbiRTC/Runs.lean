/-
AmbiRTC/Runs.lean

Runs of a transition system given by a partial step function
`step : σ → α → Option σ`: an action is either taken, with one successor, or
not enabled.  What a scheduler or an environment may choose is part of the
action, so a run is determined by its start and its list of actions.

Main results: an invariant that every step keeps holds after every run
(`Run.invariant`), also when only the steps with a side condition keep it
(`Run.invariant_of_along`) and when it speaks about the actions taken so far
(`Run.invariant_past`); steps that use up a measure come to an end
(`Run.length_add_le`); actions that can change places may come in any order
(`exec_perm`); `Run.of_exec` turns an evaluation into a run.
-/
import Mathlib.Data.List.Basic
import Mathlib.Data.List.Induction

namespace Runs

variable {σ α : Type*} {step : σ → α → Option σ}

/-- `Run step s as s'`: from `s` the actions `as` can be taken one after the
other, and lead to `s'`. -/
inductive Run (step : σ → α → Option σ) : σ → List α → σ → Prop
  | nil (s : σ) : Run step s [] s
  | cons {s s' s'' : σ} {a : α} {as : List α} (h : step s a = some s')
      (hs : Run step s' as s'') : Run step s (a :: as) s''

/-- Take the actions in turn. -/
def exec (step : σ → α → Option σ) : σ → List α → Option σ
  | s, [] => some s
  | s, a :: as => (step s a).bind fun s' => exec step s' as

/-! ### Composing and taking apart -/

theorem run_nil_iff {s s' : σ} : Run step s [] s' ↔ s = s' := by
  constructor
  · rintro ⟨⟩
    rfl
  · rintro rfl
    exact .nil s

theorem run_cons_iff {s s'' : σ} {a : α} {as : List α} :
    Run step s (a :: as) s'' ↔ ∃ s', step s a = some s' ∧ Run step s' as s'' := by
  constructor
  · rintro ⟨⟩
    exact ⟨_, ‹_›, ‹_›⟩
  · rintro ⟨s', h, hs⟩
    exact .cons h hs

theorem run_append_iff {s s'' : σ} {as bs : List α} :
    Run step s (as ++ bs) s'' ↔ ∃ s', Run step s as s' ∧ Run step s' bs s'' := by
  induction as generalizing s with
  | nil => simp [run_nil_iff]
  | cons a as ih =>
    simp only [List.cons_append, run_cons_iff, ih]
    constructor
    · rintro ⟨s₁, h, s', hs, hs'⟩
      exact ⟨s', ⟨s₁, h, hs⟩, hs'⟩
    · rintro ⟨s', ⟨s₁, h, hs⟩, hs'⟩
      exact ⟨s₁, h, s', hs, hs'⟩

theorem Run.append {s s' s'' : σ} {as bs : List α} (h : Run step s as s')
    (h' : Run step s' bs s'') : Run step s (as ++ bs) s'' :=
  run_append_iff.mpr ⟨s', h, h'⟩

theorem Run.snoc {s s' s'' : σ} {as : List α} {a : α} (h : Run step s as s')
    (ha : step s' a = some s'') : Run step s (as ++ [a]) s'' :=
  h.append (.cons ha (.nil s''))

theorem run_iff_exec {s s' : σ} {as : List α} :
    Run step s as s' ↔ exec step s as = some s' := by
  induction as generalizing s with
  | nil => simp [run_nil_iff, exec]
  | cons a as ih => simp [run_cons_iff, exec, Option.bind_eq_some_iff, ih]

/-- The actions determine where a run ends. -/
theorem Run.unique {s s' s'' : σ} {as : List α} (h : Run step s as s')
    (h' : Run step s as s'') : s' = s'' :=
  Option.some.inj ((run_iff_exec.mp h).symm.trans (run_iff_exec.mp h'))

/-- A run is an evaluation that went through. -/
theorem Run.of_exec {s s' : σ} {as : List α} (h : exec step s as = some s') :
    Run step s as s' :=
  run_iff_exec.mpr h

theorem exec_append (s : σ) (as bs : List α) :
    exec step s (as ++ bs) = (exec step s as).bind fun s' => exec step s' bs := by
  induction as generalizing s with
  | nil => rfl
  | cons a as ih =>
    simp only [List.cons_append, exec, Option.bind_assoc]
    exact Option.bind_congr fun s' _ => ih s'

/-- **Order does not matter** where neighbours can change places.  `H` is what is
known of the state and the actions still to come. -/
theorem exec_perm {H : σ → List α → Prop} (hperm : ∀ s as bs, as.Perm bs → H s as → H s bs)
    (htail : ∀ s a as s', H s (a :: as) → step s a = some s' → H s' as)
    (hswap : ∀ s a b as, H s (a :: b :: as) → exec step s [a, b] = exec step s [b, a])
    {s : σ} {as bs : List α} (h : as.Perm bs) (hs : H s as) :
    exec step s as = exec step s bs := by
  induction h generalizing s with
  | nil => rfl
  | cons a h ih =>
    simp only [exec]
    exact Option.bind_congr fun s' hs' => ih (htail s a _ s' hs hs')
  | swap a b as =>
    rw [show b :: a :: as = [b, a] ++ as from rfl, show a :: b :: as = [a, b] ++ as from rfl,
      exec_append, exec_append, hswap s b a as hs]
  | trans h₁ h₂ ih₁ ih₂ => exact (ih₁ hs).trans (ih₂ (hperm s _ _ h₁ hs))

/-! ### Conditions on the steps of a run -/

/-- Every step the run takes from `s` meets `P`, at the state it is taken in. -/
def Along (step : σ → α → Option σ) (P : σ → α → Prop) (s : σ) (as : List α) : Prop :=
  ∀ as₁ a as₂ s₁, as = as₁ ++ a :: as₂ → Run step s as₁ s₁ → P s₁ a

theorem Along.head {P : σ → α → Prop} {s : σ} {a : α} {as : List α}
    (h : Along step P s (a :: as)) : P s a :=
  h [] a as s rfl (.nil s)

theorem Along.tail {P : σ → α → Prop} {s s' : σ} {a : α} {as : List α}
    (h : Along step P s (a :: as)) (ha : step s a = some s') : Along step P s' as := by
  intro as₁ b as₂ s₁ has hrun
  exact h (a :: as₁) b as₂ s₁ (by rw [has, List.cons_append]) (.cons ha hrun)

theorem along_nil (P : σ → α → Prop) (s : σ) : Along step P s [] := by
  intro as₁ a as₂ s₁ h
  simp at h

theorem along_cons {P : σ → α → Prop} {s : σ} {a : α} {as : List α} (ha : P s a)
    (has : ∀ s', step s a = some s' → Along step P s' as) : Along step P s (a :: as) := by
  intro as₁ b as₂ s₁ h hrun
  cases as₁ with
  | nil =>
    obtain ⟨rfl, rfl⟩ := List.cons.inj h
    obtain rfl := run_nil_iff.mp hrun
    exact ha
  | cons c as₁ =>
    obtain ⟨rfl, rfl⟩ := List.cons.inj h
    obtain ⟨s', hs', hrun'⟩ := run_cons_iff.mp hrun
    exact has s' hs' as₁ b as₂ s₁ rfl hrun'

theorem Along.prefix {P : σ → α → Prop} {s : σ} {as bs : List α}
    (h : Along step P s (as ++ bs)) : Along step P s as := by
  intro as₁ a as₂ s₁ has hrun
  exact h as₁ a (as₂ ++ bs) s₁ (by rw [has]; simp) hrun

/-- A condition along two runs, one after the other. -/
theorem along_append {P : σ → α → Prop} {s : σ} {as bs : List α} (has : Along step P s as)
    (hbs : ∀ s', Run step s as s' → Along step P s' bs) : Along step P s (as ++ bs) := by
  induction as generalizing s with
  | nil => exact hbs s (.nil s)
  | cons a as ih =>
    exact along_cons has.head fun s' ha => ih (has.tail ha) fun s'' h => hbs s'' (.cons ha h)

theorem Along.drop {P : σ → α → Prop} {s s' : σ} {as bs : List α}
    (h : Along step P s (as ++ bs)) (has : Run step s as s') : Along step P s' bs := by
  intro bs₁ b bs₂ s₁ hbs hrun
  exact h (as ++ bs₁) b bs₂ s₁ (by rw [hbs, List.append_assoc]) (has.append hrun)

/-- `Along`, for a condition that can be tested. -/
def checkAlong (step : σ → α → Option σ) (p : σ → α → Bool) : σ → List α → Bool
  | _, [] => true
  | s, a :: as => p s a && (step s a).all fun s' => checkAlong step p s' as

theorem along_of_check {P : σ → α → Prop} {p : σ → α → Bool} (hp : ∀ s a, p s a = true → P s a)
    {s : σ} {as : List α} (h : checkAlong step p s as = true) : Along step P s as := by
  induction as generalizing s with
  | nil => exact along_nil P s
  | cons a as ih =>
    rw [checkAlong, Bool.and_eq_true] at h
    refine along_cons (hp s a h.1) fun s' hs' => ih ?_
    simpa [hs'] using h.2

/-- Every state the run goes through has `Q`, the first and the last included. -/
def Throughout (step : σ → α → Option σ) (Q : σ → Prop) (s : σ) (as : List α) : Prop :=
  ∀ as₁ as₂ s₁, as = as₁ ++ as₂ → Run step s as₁ s₁ → Q s₁

theorem Throughout.head {Q : σ → Prop} {s : σ} {as : List α} (h : Throughout step Q s as) : Q s :=
  h [] as s rfl (.nil s)

theorem Throughout.prefix {Q : σ → Prop} {s : σ} {as bs : List α}
    (h : Throughout step Q s (as ++ bs)) : Throughout step Q s as := by
  intro as₁ as₂ s₁ has hrun
  exact h as₁ (as₂ ++ bs) s₁ (by rw [has, List.append_assoc]) hrun

theorem Throughout.drop {Q : σ → Prop} {s s' : σ} {as bs : List α}
    (h : Throughout step Q s (as ++ bs)) (has : Run step s as s') : Throughout step Q s' bs := by
  intro bs₁ bs₂ s₁ hbs hrun
  exact h (as ++ bs₁) bs₂ s₁ (by rw [hbs, List.append_assoc]) (has.append hrun)

theorem Throughout.tail {Q : σ → Prop} {s s' : σ} {a : α} {as : List α}
    (h : Throughout step Q s (a :: as)) (ha : step s a = some s') : Throughout step Q s' as := by
  intro as₁ as₂ s₁ has hrun
  exact h (a :: as₁) as₂ s₁ (by rw [has, List.cons_append]) (.cons ha hrun)

/-- `Throughout`, for a property that can be tested. -/
def checkThroughout (step : σ → α → Option σ) (q : σ → Bool) : σ → List α → Bool
  | s, [] => q s
  | s, a :: as => q s && (step s a).all fun s' => checkThroughout step q s' as

theorem throughout_of_check {Q : σ → Prop} {q : σ → Bool} (hq : ∀ s, q s = true → Q s) {s : σ}
    {as : List α} (h : checkThroughout step q s as = true) : Throughout step Q s as := by
  induction as generalizing s with
  | nil =>
    intro as₁ as₂ s₁ has hrun
    obtain ⟨rfl, -⟩ := List.append_eq_nil_iff.mp has.symm
    obtain rfl := run_nil_iff.mp hrun
    exact hq s h
  | cons a as ih =>
    rw [checkThroughout, Bool.and_eq_true] at h
    intro as₁ as₂ s₁ has hrun
    cases as₁ with
    | nil =>
      obtain rfl := run_nil_iff.mp hrun
      exact hq s h.1
    | cons b as₁ =>
      obtain ⟨rfl, rfl⟩ := List.cons.inj has
      obtain ⟨s', hs', hrun'⟩ := run_cons_iff.mp hrun
      exact ih (by simpa [hs'] using h.2) as₁ as₂ s₁ rfl hrun'

/-! ### The order of actions -/

/-- Some `a` of the list comes before some `b`. -/
def Before (a b : α) (as : List α) : Prop :=
  ∃ as₁ as₂, as = as₁ ++ b :: as₂ ∧ a ∈ as₁

theorem Before.mem_left {a b : α} {as : List α} (h : Before a b as) : a ∈ as := by
  obtain ⟨as₁, as₂, rfl, hmem⟩ := h
  exact List.mem_append_left _ hmem

/-- A list cut in front of some `b`, when the last action is known: there, or before it. -/
theorem concat_eq_append_cons {a b : α} {as as₁ as₂ : List α} (h : as ++ [a] = as₁ ++ b :: as₂) :
    (as = as₁ ∧ a = b ∧ as₂ = []) ∨ ∃ as₃, as₂ = as₃ ++ [a] ∧ as = as₁ ++ b :: as₃ := by
  rcases List.eq_nil_or_concat as₂ with rfl | ⟨as₃, c, rfl⟩
  · obtain ⟨rfl, hab⟩ := List.append_inj' h rfl
    exact Or.inl ⟨rfl, (List.cons.inj hab).1, rfl⟩
  · rw [List.concat_eq_append, ← List.cons_append, ← List.append_assoc] at h
    obtain ⟨rfl, hac⟩ := List.append_inj' h rfl
    obtain rfl := (List.cons.inj hac).1
    exact Or.inr ⟨as₃, List.concat_eq_append, rfl⟩

theorem before_concat_iff {a b c : α} {as : List α} :
    Before a b (as ++ [c]) ↔ Before a b as ∨ (c = b ∧ a ∈ as) := by
  constructor
  · rintro ⟨as₁, as₂, heq, hmem⟩
    rcases concat_eq_append_cons heq with ⟨rfl, hcb, -⟩ | ⟨as₃, -, rfl⟩
    · exact Or.inr ⟨hcb, hmem⟩
    · exact Or.inl ⟨as₁, as₃, rfl, hmem⟩
  · rintro (⟨as₁, as₂, rfl, hmem⟩ | ⟨rfl, hmem⟩)
    · exact ⟨as₁, as₂ ++ [c], by simp, hmem⟩
    · exact ⟨as, [], rfl, hmem⟩

/-! ### Invariants -/

/-- **The guarded invariant rule.**  What every step meeting `P` keeps holds
after every run all of whose steps meet `P`. -/
theorem Run.invariant_of_along {I : σ → Prop} {P : σ → α → Prop}
    (hstep : ∀ s a s', I s → P s a → step s a = some s' → I s')
    {s s' : σ} {as : List α} (h : Run step s as s') (hP : Along step P s as) (hs : I s) :
    I s' := by
  induction h with
  | nil s => exact hs
  | cons ha _ ih => exact ih (hP.tail ha) (hstep _ _ _ hs hP.head ha)

/-- **The invariant rule with a history.**  An invariant, and the condition the
steps meet, may also speak about the actions taken so far. -/
theorem Run.invariant_past {I : List α → σ → Prop} {P : List α → σ → α → Prop}
    (hstep : ∀ past s a s', I past s → P past s a → step s a = some s' → I (past ++ [a]) s')
    {s s' : σ} {as past : List α} (h : Run step s as s')
    (hP : ∀ as₁ a as₂ s₁, as = as₁ ++ a :: as₂ → Run step s as₁ s₁ → P (past ++ as₁) s₁ a)
    (hs : I past s) : I (past ++ as) s' := by
  induction h generalizing past with
  | nil s =>
    rw [List.append_nil]
    exact hs
  | @cons s s₁ s' a as ha _ ih =>
    rw [List.append_cons]
    refine ih (fun as₁ b as₂ s₂ has hrun => ?_) (hstep _ _ _ _ hs ?_ ha)
    · rw [← List.append_cons]
      exact hP (a :: as₁) b as₂ s₂ (by rw [has, List.cons_append]) (.cons ha hrun)
    · have := hP [] a as s rfl (.nil s)
      rwa [List.append_nil] at this

theorem Run.invariant_history {I : List α → σ → Prop} {P : σ → α → Prop}
    (hstep : ∀ past s a s', I past s → P s a → step s a = some s' → I (past ++ [a]) s')
    {s s' : σ} {as : List α} (h : Run step s as s') (hP : Along step P s as) {past : List α}
    (hs : I past s) : I (past ++ as) s' :=
  @Run.invariant_past _ _ _ I (fun _ => P) hstep _ _ _ _ h hP hs

/-- **The invariant rule.**  What every step keeps holds after every run. -/
theorem Run.invariant {I : σ → Prop} (hstep : ∀ s a s', I s → step s a = some s' → I s')
    {s s' : σ} {as : List α} (h : Run step s as s') (hs : I s) : I s' := by
  induction h with
  | nil s => exact hs
  | cons ha _ ih => exact ih (hstep _ _ _ hs ha)

/-- **The bounded run rule.**  Where every step uses up some of `μ`, a run is no longer
than what it uses up. -/
theorem Run.length_add_le {I : σ → Prop} {P : α → Prop} {μ : σ → ℕ}
    (hstep : ∀ s a s', I s → P a → step s a = some s' → I s' ∧ μ s' < μ s) {s s' : σ}
    {as : List α} (h : Run step s as s') (hP : ∀ a ∈ as, P a) (hs : I s) :
    as.length + μ s' ≤ μ s := by
  induction h with
  | nil s => exact Nat.le_of_eq (Nat.zero_add _)
  | @cons s s₁ s' a as ha _ ih =>
    obtain ⟨hs₁, hlt⟩ := hstep s a s₁ hs (hP a List.mem_cons_self) ha
    have hle := ih (fun b hb => hP b (List.mem_cons_of_mem a hb)) hs₁
    rw [List.length_cons]
    omega

/-- What is kept by steps meeting `P` holds throughout a run of such steps. -/
theorem throughout_of_along {I : σ → Prop} {P : σ → α → Prop}
    (hstep : ∀ s a s', I s → P s a → step s a = some s' → I s') {s : σ} {as : List α}
    (hP : Along step P s as) (hs : I s) : Throughout step I s as := by
  rintro as₁ as₂ s₁ rfl hrun
  exact hrun.invariant_of_along hstep hP.prefix hs

/-- Repeating a piece of a run that leads from `f i` to `f (i + 1)`. -/
theorem run_repeat {as : List α} {f : ℕ → σ} (n : ℕ)
    (h : ∀ i, i < n → Run step (f i) as (f (i + 1))) :
    Run step (f 0) (List.replicate n as).flatten (f n) := by
  induction n with
  | zero => exact .nil _
  | succ n ih =>
    rw [List.replicate_succ', List.flatten_concat]
    exact (ih fun i hi => h i (Nat.lt_succ_of_lt hi)).append (h n (Nat.lt_succ_self n))

end Runs
