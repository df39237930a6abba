/-
AmbiRTC/RemoteIce.lean

The remote candidates of a session (mcu/internal/session/session.go,
`HandleAnswer`, `AddRemoteICE`).  A candidate that comes before the answer is
buffered; the answer sets the remote description of the PeerConnection, and then
takes the buffer and passes it on.  The flag and the buffer are under the
session's lock, the calls of the PeerConnection are not.

Main result: in every interleaving of the calls nothing is passed before a remote
description is set, and when all calls have returned each candidate has been
passed once if some answer was applied, and is buffered once if none was
(`candidates_conserved`).
-/
import AmbiRTC.Threads

namespace AmbiRTC

namespace RemoteIce

open Runs Threads

variable {C : Type}

/-! ### The calls -/

/-- A call of the session. -/
inductive Call (C : Type) where
  | addRemoteICE (c : C)
  | handleAnswer

/-- The candidates a call brings. -/
def Call.candidates : Call C → Multiset C
  | .addRemoteICE c => {c}
  | .handleAnswer => 0

/-- How far a call has come. -/
inductive Thread (C : Type) where
  /-- `AddRemoteICE`, before it takes the lock -/
  | adding (c : C)
  /-- `AddRemoteICE`, before it calls `pc.AddICECandidate` -/
  | passing (c : C)
  /-- `AddRemoteICE` has returned -/
  | added
  /-- `HandleAnswer`, in `pc.SetRemoteDescription` -/
  | answering
  /-- `HandleAnswer`, before it takes the lock -/
  | draining
  /-- `HandleAnswer`, in the loop over what it has taken -/
  | feeding (pending : List C)
  /-- `HandleAnswer` has returned no error -/
  | answered
  /-- `HandleAnswer` has returned the error of `SetRemoteDescription` -/
  | failed

/-- Where a call begins. -/
def Call.entry : Call C → Thread C
  | .addRemoteICE c => .adding c
  | .handleAnswer => .answering

/-- The call has returned. -/
def Thread.Returned : Thread C → Prop
  | .added | .answered | .failed => True
  | _ => False

/-- What the calls share: the session, and what its PeerConnection has seen. -/
structure State (C : Type) where
  remoteDescription : Bool
  pendingCandidates : List C
  /-- whether a `SetRemoteDescription` has succeeded -/
  remoteSet : Bool
  /-- the arguments of `AddICECandidate` so far, whether it took them or not -/
  passed : List C

/-- A new session. -/
def start : System (State C) (Thread C) := ⟨⟨false, [], false, []⟩, []⟩

/-- The next step of a call; `ok` is the outcome of `SetRemoteDescription`. -/
def advance (s : State C) : Thread C → (ok : Bool) → Option (State C × Thread C)
  | .adding c, _ =>
    if !s.remoteDescription then
      some ({ s with pendingCandidates := s.pendingCandidates ++ [c] }, .added)
    else some (s, .passing c)
  | .passing c, _ => some ({ s with passed := s.passed ++ [c] }, .added)
  | .answering, ok =>
    if ok then some ({ s with remoteSet := true }, .draining) else some (s, .failed)
  | .draining, _ =>
    some ({ s with remoteDescription := true, pendingCandidates := [] },
      .feeding s.pendingCandidates)
  | .feeding [], _ => some (s, .answered)
  | .feeding (c :: pending), _ => some ({ s with passed := s.passed ++ [c] }, .feeding pending)
  | .added, _ | .answered, _ | .failed, _ => none

/-- One action of the session and its callers. -/
abbrev step : System (State C) (Thread C) → Action (Call C) Bool →
    Option (System (State C) (Thread C)) :=
  Threads.step Call.entry advance

/-! ### One step -/

/-- What a step of a call does. -/
inductive Advanced (s : State C) : Thread C → State C → Thread C → Prop
  | buffer {c : C} (hflag : s.remoteDescription = false) :
      Advanced s (.adding c) { s with pendingCandidates := s.pendingCandidates ++ [c] } .added
  | through {c : C} (hflag : s.remoteDescription = true) : Advanced s (.adding c) s (.passing c)
  | pass {c : C} : Advanced s (.passing c) { s with passed := s.passed ++ [c] } .added
  | set : Advanced s .answering { s with remoteSet := true } .draining
  | refuse : Advanced s .answering s .failed
  | drain : Advanced s .draining
      { s with remoteDescription := true, pendingCandidates := [] } (.feeding s.pendingCandidates)
  | feed {c : C} {pending : List C} :
      Advanced s (.feeding (c :: pending)) { s with passed := s.passed ++ [c] } (.feeding pending)
  | finish : Advanced s (.feeding []) s .answered

variable {s s' : State C} {t t' : Thread C} {ok : Bool}

theorem advance_cases (h : advance s t ok = some (s', t')) : Advanced s t s' t' := by
  cases t with
  | adding c =>
    rw [advance] at h
    split at h
    -- the flag is read under the lock: buffer, or pass on
    case isTrue hflag =>
      obtain ⟨rfl, rfl⟩ := Prod.mk.inj (Option.some.inj h)
      exact .buffer (by simpa using hflag)
    case isFalse hflag =>
      obtain ⟨rfl, rfl⟩ := Prod.mk.inj (Option.some.inj h)
      exact .through (by simpa using hflag)
  | passing c =>
    obtain ⟨rfl, rfl⟩ := Prod.mk.inj (Option.some.inj h)
    exact .pass
  | answering =>
    rw [advance] at h
    split at h
    · obtain ⟨rfl, rfl⟩ := Prod.mk.inj (Option.some.inj h)
      exact .set
    · obtain ⟨rfl, rfl⟩ := Prod.mk.inj (Option.some.inj h)
      exact .refuse
  | draining =>
    obtain ⟨rfl, rfl⟩ := Prod.mk.inj (Option.some.inj h)
    exact .drain
  | feeding pending =>
    cases pending with
    | nil =>
      obtain ⟨rfl, rfl⟩ := Prod.mk.inj (Option.some.inj h)
      exact .finish
    | cons c pending =>
      obtain ⟨rfl, rfl⟩ := Prod.mk.inj (Option.some.inj h)
      exact .feed
  | added => cases h
  | answered => cases h
  | failed => cases h

/-! ### What the calls rely on -/

/-- The flag is only up once a description has been set, and then nothing is
buffered; and nothing has been passed on before. -/
structure Settled (s : State C) : Prop where
  remoteSet : s.remoteDescription = true → s.remoteSet = true
  pending_eq : s.remoteDescription = true → s.pendingCandidates = []
  passed_eq : s.remoteSet = false → s.passed = []

/-- What a call knows from the steps it has taken. -/
def Knows (s : State C) : Thread C → Prop
  | .passing _ | .feeding _ | .answered => s.remoteDescription = true
  | .draining => s.remoteSet = true
  | _ => True

/-- Both flags stay up. -/
structure Raised (s s' : State C) : Prop where
  remoteDescription : s.remoteDescription = true → s'.remoteDescription = true
  remoteSet : s.remoteSet = true → s'.remoteSet = true

theorem Advanced.raised (h : Advanced s t s' t') : Raised s s' := by
  cases h with
  | set => exact ⟨fun h => h, fun _ => rfl⟩
  | drain => exact ⟨fun _ => rfl, fun h => h⟩
  | _ => exact ⟨fun h => h, fun h => h⟩

/-- No call unsettles what another one knows. -/
theorem Knows.raised {u : Thread C} (h : Knows s u) (hr : Raised s s') : Knows s' u := by
  cases u with
  | passing | feeding | answered => exact hr.remoteDescription h
  | draining => exact hr.remoteSet h
  | adding | added | answering | failed => trivial

/-- Where a candidate may be passed on the description is set. -/
theorem Settled.pass (hs : Settled s) (hflag : s.remoteDescription = true) (c : C) :
    Settled { s with passed := s.passed ++ [c] } := by
  refine ⟨hs.remoteSet, hs.pending_eq, fun hset => ?_⟩
  rw [hs.remoteSet hflag] at hset
  cases hset

theorem Settled.next (hs : Settled s) (ht : Knows s t) (h : Advanced s t s' t') :
    Settled s' ∧ Knows s' t' := by
  cases h with
  | buffer hflag =>
    refine ⟨⟨hs.remoteSet, fun hup => ?_, hs.passed_eq⟩, trivial⟩
    rw [hflag] at hup
    cases hup
  | through hflag => exact ⟨hs, hflag⟩
  | pass => exact ⟨hs.pass ht _, trivial⟩
  | set => exact ⟨⟨fun _ => rfl, hs.pending_eq, fun hset => by cases hset⟩, rfl⟩
  | refuse => exact ⟨hs, trivial⟩
  | drain => exact ⟨⟨fun _ => ht, fun _ => rfl, hs.passed_eq⟩, rfl⟩
  | feed => exact ⟨hs.pass ht _, ht⟩
  | finish => exact ⟨hs, ht⟩

/-- Nothing is passed on but by a call that has found the flag up. -/
theorem Advanced.remoteSet_of_passes (h : Advanced s t s' t') (hs : Settled s) (ht : Knows s t)
    (hne : s'.passed ≠ s.passed) : s.remoteSet = true := by
  cases h with
  | pass => exact hs.remoteSet ht
  | feed => exact hs.remoteSet ht
  | _ => exact absurd rfl hne

/-- The answer a call stands for has been applied. -/
def Thread.Applied : Thread C → Prop
  | .draining | .feeding _ | .answered => True
  | _ => False

theorem Advanced.applied (h : Advanced s t s' t') :
    (t.Applied → t'.Applied) ∧ (s'.remoteSet = true → s.remoteSet = true ∨ t'.Applied) := by
  cases h with
  | set | drain | feed | finish => exact ⟨fun _ => trivial, fun _ => Or.inr trivial⟩
  | buffer | through | pass | refuse => exact ⟨fun happ => happ.elim, Or.inl⟩

/-! ### Where the candidates are -/

/-- The candidates a call has in hand. -/
def Thread.held : Thread C → Multiset C
  | .adding c | .passing c => {c}
  | .feeding pending => pending
  | _ => 0

/-- The candidates buffered and passed on. -/
def State.kept (s : State C) : Multiset C := s.pendingCandidates + s.passed

theorem Advanced.kept_eq (h : Advanced s t s' t') : s'.kept + t'.held = s.kept + t.held := by
  cases h with
  | @buffer c hflag =>
    show ((s.pendingCandidates ++ [c] : List C) : Multiset C) + s.passed + 0
      = s.pendingCandidates + s.passed + {c}
    rw [add_zero, ← Multiset.coe_add, Multiset.coe_singleton, add_right_comm]
  | through | set | refuse | finish => rfl
  | @pass c =>
    show (s.pendingCandidates : Multiset C) + (s.passed ++ [c] : List C) + 0
      = s.pendingCandidates + s.passed + {c}
    rw [add_zero, ← Multiset.coe_add, Multiset.coe_singleton, add_assoc]
  | drain =>
    show (0 : Multiset C) + s.passed + s.pendingCandidates
      = s.pendingCandidates + s.passed + 0
    rw [zero_add, add_zero, add_comm]
  | @feed c pending =>
    show (s.pendingCandidates : Multiset C) + (s.passed ++ [c] : List C) + pending
      = s.pendingCandidates + s.passed + (c :: pending : List C)
    rw [← Multiset.coe_add, Multiset.coe_singleton, ← Multiset.cons_coe, ← Multiset.singleton_add]
    simp only [add_assoc]

/-! ### Runs -/

/-- The candidates of the calls made. -/
def called (as : List (Action (Call C) Bool)) : Multiset C :=
  ((as.filterMap Action.called).map Call.candidates).sum

variable {x x' : System (State C) (Thread C)} {as : List (Action (Call C) Bool)}

theorem settled_run (h : Run step start as x) :
    Settled x.shared ∧ ∀ t ∈ x.threads, Knows x.shared t := by
  refine Run.modular (I := Settled) (L := Knows) (fun s k _ => ?_)
    (fun s t ok s' t' hs ht h => ?_) h ⟨⟨?_, fun _ => rfl, fun _ => rfl⟩, ?_⟩
  · cases k <;> trivial
  · have hadv := advance_cases h
    obtain ⟨hs', ht'⟩ := hs.next ht hadv
    exact ⟨hs', ht', fun u hu => hu.raised hadv.raised⟩
  · intro hup
    cases hup
  · intro t ht
    cases ht

/-- Somebody's answer has been applied, once a description is set. -/
theorem applied_run (h : Run step start as x) (hset : x.shared.remoteSet = true) :
    ∃ t ∈ x.threads, t.Applied := by
  refine Run.witness (M := fun s => s.remoteSet = true) (Q := Thread.Applied)
    (fun s t ok s' t' h => (advance_cases h).applied) h (fun hset => ?_) hset
  cases hset

theorem called_run (h : Run step start as x) :
    tokens State.kept Thread.held x = called as := by
  have heq := Run.tokens_eq (fun s t ok s' t' h => (advance_cases h).kept_eq) h
  have hentry : (fun k : Call C => k.entry.held) = Call.candidates := by
    funext k
    cases k <;> rfl
  rw [heq, hentry, called]
  exact zero_add _

/-- Calls that have returned have nothing in hand. -/
theorem tokens_of_returned (hret : ∀ t ∈ x.threads, t.Returned) :
    tokens State.kept Thread.held x = x.shared.pendingCandidates + x.shared.passed := by
  have hheld : ∀ m ∈ x.threads.map Thread.held, m = 0 := by
    intro m hm
    obtain ⟨t, ht, rfl⟩ := List.mem_map.mp hm
    have := hret t ht
    cases t <;> first | rfl | exact this.elim
  rw [tokens, List.sum_eq_zero hheld, add_zero]
  rfl

/-- **No candidate is lost or passed on twice.**  In every interleaving of calls:
a step that passes a candidate is taken with a remote description set; and when
all calls have returned, all candidates have been passed once if some
`HandleAnswer` succeeded, and otherwise are all buffered once. -/
theorem candidates_conserved (h : Run step start as x) :
    (∀ a x', step x a = some x' → x'.shared.passed ≠ x.shared.passed →
      x.shared.remoteSet = true) ∧
    ((∀ t ∈ x.threads, t.Returned) →
      (.answered ∈ x.threads → (x.shared.passed : Multiset C) = called as ∧
        x.shared.pendingCandidates = []) ∧
      (.answered ∉ x.threads → (x.shared.pendingCandidates : Multiset C) = called as ∧
        x.shared.passed = [])) := by
  obtain ⟨hsettled, hknows⟩ := settled_run h
  have htokens := called_run h
  refine ⟨fun a x' hstep hne => ?_, fun hret => ⟨fun hanswered => ?_, fun hnone => ?_⟩⟩
  · cases step_cases hstep with
    | call k => exact absurd rfl hne
    | @next shared shared' front back t t' ok hadv =>
      exact (advance_cases hadv).remoteSet_of_passes hsettled (hknows t (by simp)) hne
  · have hpending := hsettled.pending_eq (hknows _ hanswered)
    rw [tokens_of_returned hret, hpending, Multiset.coe_nil, zero_add] at htokens
    exact ⟨htokens, hpending⟩
  · have hpassed : x.shared.passed = [] := by
      apply hsettled.passed_eq
      by_contra hset
      obtain ⟨t, ht, happ⟩ := applied_run h (Bool.not_eq_false _ ▸ hset)
      -- of the calls that have returned only one that answered has been applied
      have := hret t ht
      cases t with
      | answered => exact hnone ht
      | draining | feeding => exact this.elim
      | _ => exact happ.elim
    rw [tokens_of_returned hret, hpassed, Multiset.coe_nil, add_zero] at htokens
    exact ⟨htokens, hpassed⟩

/-- Three candidates: one before the answer, one between the remote description
and the flag, one after the flag and before the buffer is passed on. -/
def crossing : List (Action (Call ℕ) Bool) :=
  [.call (.addRemoteICE 7), .next 0 true, .call .handleAnswer, .next 1 true,
    .call (.addRemoteICE 8), .next 2 true, .next 1 true, .call (.addRemoteICE 9), .next 3 true,
    .next 1 true, .next 3 true, .next 1 true, .next 1 true]

theorem candidates_conserved_crossing : ∃ x, Run step start crossing x ∧
    x.shared.passed = [7, 9, 8] ∧ (x.shared.passed : Multiset ℕ) = called crossing := by
  have h : Run step start crossing ⟨⟨true, [], true, [7, 9, 8]⟩, [.added, .answered, .added,
    .added]⟩ := .of_exec rfl
  refine ⟨_, h, rfl, (((candidates_conserved h).2 ?_).1 ?_).1⟩
  · simp [Thread.Returned]
  · simp

end RemoteIce

end AmbiRTC
