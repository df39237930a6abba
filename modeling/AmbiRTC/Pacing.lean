/-
AmbiRTC/Pacing.lean

Send pacing (mcu/internal/session/pipeline.go `sendLoop`, session.go
`attachDataChannel`).  The send loop drops packets while `congested` is set; it
sets the flag itself, after a send that leaves the transport's buffer above the
high watermark, and the transport's buffered-amount-low callback clears it.  The
callback runs on another goroutine, once for each time the buffered amount falls
from above the low watermark to it or below.

The loop reads the buffered amount and stores the flag in two steps.  If the
buffer drains and the callback runs between them, the flag is set with nobody
left to clear it: the loop is wedged.

Main results: a schedule never wedges the loop if and only if every store of the
flag finds the buffer above the low watermark or a callback still to come
(`neverWedged_iff`); a schedule with a late store wedges it
(`drainBeforeStore_wedges`).
-/
import AmbiRTC.Runs
import Mathlib.Tactic.Linarith

namespace AmbiRTC

open Runs

namespace Pacing

/-- `sendHighWater`: 1 MiB. -/
def sendHighWater : ℕ := 2 ^ 20

/-- `sendLowWater`: 256 KiB. -/
def sendLowWater : ℕ := 2 ^ 18

/-- Where the send loop is; a packet in hand is known by its length. -/
inductive SendLoop where
  /-- waiting for `sendCh` -/
  | idle
  /-- about to test `congested` -/
  | testing (len : ℕ)
  /-- about to call `dc.Send` -/
  | sending (len : ℕ)
  /-- about to read `dc.BufferedAmount()` -/
  | sent
  /-- has read more than the high watermark, about to set `congested` -/
  | storing
  deriving DecidableEq, Repr

/-- The send loop and the transport under it. -/
structure State where
  loop : SendLoop
  congested : Bool
  bufferedAmount : ℕ
  /-- buffered-amount-low callbacks that are due and have not run yet -/
  pending : ℕ
  pktsSent : UInt64
  sendDrops : UInt64
  deriving DecidableEq, Repr

/-- Before the first packet. -/
def initial : State where
  loop := .idle
  congested := false
  bufferedAmount := 0
  pending := 0
  pktsSent := 0
  sendDrops := 0

/-- What may happen next. -/
inductive Action where
  | receive (len : ℕ)
  | test
  | send
  /-- `dc.Send` returns an error -/
  | sendFails
  | read
  | store
  /-- the transport has transmitted `n` bytes of its buffer -/
  | drain (n : ℕ)
  /-- `OnBufferedAmountLow` -/
  | low
  deriving DecidableEq, Repr

/-- One step of the send loop or of the transport. -/
def step (s : State) : Action → Option State
  | .receive len => if s.loop = .idle then some { s with loop := .testing len } else none
  | .test =>
    match s.loop with
    | .testing len =>
      if s.congested then some { s with loop := .idle, sendDrops := s.sendDrops + 1 }
      else some { s with loop := .sending len }
    | _ => none
  | .send =>
    match s.loop with
    | .sending len =>
      some { s with
        loop := .sent
        bufferedAmount := s.bufferedAmount + len
        pktsSent := s.pktsSent + 1 }
    | _ => none
  | .sendFails =>
    match s.loop with
    | .sending _ => some { s with loop := .idle }
    | _ => none
  | .read =>
    if s.loop = .sent then
      if s.bufferedAmount > sendHighWater then some { s with loop := .storing }
      else some { s with loop := .idle }
    else none
  | .store =>
    if s.loop = .storing then some { s with loop := .idle, congested := true } else none
  | .drain n =>
    if n ≤ s.bufferedAmount then
      some { s with
        bufferedAmount := s.bufferedAmount - n
        pending :=
          if s.bufferedAmount > sendLowWater ∧ s.bufferedAmount - n ≤ sendLowWater then
            s.pending + 1
          else s.pending }
    else none
  | .low =>
    if 0 < s.pending then some { s with pending := s.pending - 1, congested := false } else none

/-! ### Wedged -/

/-- The flag is set, and nothing will ever clear it: the buffer is already low,
no callback is due, and the loop is not about to store the flag. -/
def Wedged (s : State) : Prop :=
  s.congested = true ∧ s.bufferedAmount ≤ sendLowWater ∧ s.pending = 0 ∧ s.loop ≠ .storing

/-- A store of the flag finds the buffer above the low watermark, or a callback
still to come. -/
def TimelyStore (s : State) : Action → Prop
  | .store => s.loop = .storing → sendLowWater < s.bufferedAmount ∨ 0 < s.pending
  | _ => True

/-- While the flag is set, somebody will clear it. -/
def WillClear (s : State) : Prop :=
  s.congested = true → sendLowWater < s.bufferedAmount ∨ 0 < s.pending

theorem WillClear.not_wedged {s : State} (h : WillClear s) : ¬ Wedged s := by
  rintro ⟨hcongested, hlow, hpending, -⟩
  have := h hcongested
  omega

/-- **One step with a timely store.** -/
theorem willClear_step {s s' : State} {a : Action} (h : WillClear s) (ht : TimelyStore s a)
    (hstep : step s a = some s') : WillClear s' := by
  cases a with
  | receive len =>
    simp only [step] at hstep
    split at hstep
    case isTrue =>
      obtain rfl := Option.some.inj hstep
      exact h
    case isFalse => cases hstep
  | test =>
    simp only [step] at hstep
    split at hstep
    · split at hstep <;>
        obtain rfl := Option.some.inj hstep <;>
        exact h
    · cases hstep
  | send =>
    simp only [step] at hstep
    split at hstep
    · -- a send only fills the buffer
      obtain rfl := Option.some.inj hstep
      intro hcongested
      exact (h hcongested).imp_left fun hlow => Nat.lt_add_right _ hlow
    · cases hstep
  | sendFails =>
    simp only [step] at hstep
    split at hstep
    · obtain rfl := Option.some.inj hstep
      exact h
    · cases hstep
  | read =>
    simp only [step] at hstep
    split at hstep
    case isTrue =>
      split at hstep <;>
        obtain rfl := Option.some.inj hstep <;>
        exact h
    case isFalse => cases hstep
  | store =>
    simp only [step] at hstep
    split at hstep
    case isTrue hstoring =>
      obtain rfl := Option.some.inj hstep
      exact fun _ => ht hstoring
    case isFalse => cases hstep
  | drain n =>
    simp only [step] at hstep
    split at hstep
    case isTrue =>
      obtain rfl := Option.some.inj hstep
      intro hcongested
      -- a drain to the low watermark makes a callback due
      have := h hcongested
      simp only
      split <;> omega
    case isFalse => cases hstep
  | low =>
    -- the callback may clear the flag and be the last one due
    simp only [step] at hstep
    split at hstep
    case isTrue =>
      obtain rfl := Option.some.inj hstep
      intro hcongested
      cases hcongested
    case isFalse => cases hstep

/-- **Send pacing never wedges, if and only if every store is timely.**  In every
schedule from the start. -/
theorem neverWedged_iff (acts : List Action) :
    Throughout step (fun s => ¬ Wedged s) initial acts ↔ Along step TimelyStore initial acts := by
  constructor
  · intro hnever as₁ a as₂ s hacts hrun
    cases a with
    | store =>
      intro hstoring
      have hstore : step s .store = some { s with loop := .idle, congested := true } :=
        if_pos hstoring
      -- right after a late store the loop is wedged
      have hnot := hnever (as₁ ++ [.store]) as₂ _ (by rw [hacts]; simp) (hrun.snoc hstore)
      by_contra hlate
      exact hnot ⟨rfl, by simp only; omega, by simp only; omega, by simp⟩
    | _ => trivial
  · intro htimely as₁ as₂ s hacts hrun
    have hclear : Throughout step WillClear initial acts :=
      throughout_of_along (fun _ _ _ => willClear_step) htimely fun h => by cases h
    exact (hclear as₁ as₂ s hacts hrun).not_wedged

/-! ### A late store -/

/-- Idle with `n` bytes in the transport's buffer and `k` packets sent. -/
def filled (n : ℕ) (k : UInt64) : State where
  loop := .idle
  congested := false
  bufferedAmount := n
  pending := 0
  pktsSent := k
  sendDrops := 0

/-- One packet that leaves the buffer at or below the high watermark. -/
theorem run_send {n len : ℕ} (k : UInt64) (h : n + len ≤ sendHighWater) :
    Run step (filled n k) [.receive len, .test, .send, .read] (filled (n + len) (k + 1)) := by
  have hlow : ¬ n + len > sendHighWater := not_lt.mpr h
  have hread : step ⟨.sent, false, n + len, 0, k + 1, 0⟩ .read
      = some (filled (n + len) (k + 1)) := by
    simp only [step, if_true, if_neg hlow, filled]
  exact .cons rfl (.cons rfl (.cons rfl (.cons hread (.nil _))))

/-- The buffer one packet over the high watermark: the loop is about to store. -/
def overfull (drained : ℕ) : State where
  loop := .storing
  congested := false
  bufferedAmount := 1048800 - drained
  pending := 0
  pktsSent := 874
  sendDrops := 0

/-- Packets of 1200 bytes until the buffer is over the high watermark, a drain
down to the low one, the callback, and only then the store. -/
def lateStore : List Action :=
  (List.replicate 873 [.receive 1200, .test, .send, .read]).flatten ++
    ([.receive 1200, .test, .send, .read] ++
      ((List.replicate 655 [.drain 1200]).flatten ++ [.drain 1200, .low, .store]))

theorem run_lateStore : ∃ s, Run step initial lateStore s ∧ Wedged s := by
  have hfill : Run step (filled 0 0)
      (List.replicate 873 [.receive 1200, .test, .send, .read]).flatten
      (filled (873 * 1200) 873) := by
    refine run_repeat (f := fun i => filled (i * 1200) (UInt64.ofNat i)) 873 fun i hi => ?_
    have hnext : filled ((i + 1) * 1200) (UInt64.ofNat (i + 1))
        = filled (i * 1200 + 1200) (UInt64.ofNat i + 1) := by
      rw [Nat.succ_mul, UInt64.ofNat_add]
      rfl
    rw [hnext]
    apply run_send _
    unfold sendHighWater
    omega
  have hover : Run step (filled (873 * 1200) 873) [.receive 1200, .test, .send, .read]
      (overfull 0) := Run.of_exec (by decide +kernel)
  have hdrain : Run step (overfull 0) (List.replicate 655 [.drain 1200]).flatten
      (overfull (655 * 1200)) := by
    refine run_repeat (f := fun i => overfull (i * 1200)) 655 fun i hi => ?_
    have hle : 1200 ≤ (overfull (i * 1200)).bufferedAmount := by
      show 1200 ≤ 1048800 - i * 1200
      omega
    have hhigh : ¬ (1048800 - i * 1200 - 1200 ≤ sendLowWater) := by
      unfold sendLowWater
      omega
    refine .cons ?_ (.nil _)
    simp only [step, if_pos hle]
    simp only [overfull, hhigh, and_false, if_false, Option.some.injEq, State.mk.injEq, true_and,
      and_true]
    omega
  have hlast : Run step (overfull (655 * 1200)) [.drain 1200, .low, .store]
      ⟨.idle, true, 261600, 0, 874, 0⟩ := Run.of_exec (by decide +kernel)
  refine ⟨_, hfill.append (hover.append (hdrain.append hlast)), rfl, ?_, rfl, by simp⟩
  decide

/-- **A late store wedges the loop.** -/
theorem drainBeforeStore_wedges :
    ¬ ∀ acts, Throughout step (fun s => ¬ Wedged s) initial acts := by
  intro h
  obtain ⟨s, hrun, hwedged⟩ := run_lateStore
  exact h lateStore lateStore [] s (List.append_nil _).symm hrun hwedged

end Pacing

end AmbiRTC
