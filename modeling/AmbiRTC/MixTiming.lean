/-
AmbiRTC/MixTiming.lean

When the mix clock of a room ticks (mcu/internal/room/room.go `mixClock`).  The deadline of
a tick is computed from a fixed base, and the timer is set to what is left until then.
The goroutine may be held up anywhere, and the timer may be late but not early.

Times are in nanoseconds, and integers: a `time.Duration` is an `int64`, which overflows
after 292 years.  What is mixed does not matter here (AmbiRTC/Mix.lean), only whether the
room has members.

Main results: `Ok.step`: no tick is early, so there is never more audio than time has
passed; `Catching.step`: what is left of a delay after a step; and from them `paced`.
-/
import AmbiRTC.Runs
import Mathlib.Tactic.Linarith
import Mathlib.Tactic.Ring

namespace AmbiRTC.MixTiming

open Runs

/-! ### The clock -/

/-- `sampleRate` -/
def sampleRate : ℕ := 48000

/-- `time.Second` -/
def second : ℕ := 1000000000

/-- `period` -/
def period (frameSize : ℕ) : ℕ := frameSize * second / sampleRate

/-- Where `mixClock` is. -/
inductive Phase where
  /-- at the `select`; the timer is due at `timer` -/
  | waiting (timer : ℤ)
  /-- it has received from the timer -/
  | measuring
  | mixing
  /-- about to call `time.Until` -/
  | rearming
  /-- about to set the timer to `d` -/
  | resetting (d : ℤ)
  | returned
  deriving DecidableEq

/-- A tick is being worked on, or the timer set. -/
def Phase.working : Phase → Bool
  | .waiting _ | .returned => false
  | .measuring | .mixing | .rearming | .resetting _ => true

/-- The variables of `mixClock`, and the counters of the room it writes. -/
structure State where
  now : ℤ
  base : ℤ
  tick : ℕ
  mixTs : UInt32
  phase : Phase
  jitNanosSum : ℤ
  jitNanosMax : ℤ
  jitCount : ℕ
  /-- when the clock last received from its timer, or was started -/
  woke : ℤ
  /-- how many mixes there have been -/
  mixed : ℕ

/-- The clock when it is started. -/
def start (now : ℤ) : State where
  now := now
  base := now
  tick := 1
  mixTs := 0
  phase := .rearming
  jitNanosSum := 0
  jitNanosMax := 0
  jitCount := 0
  woke := now
  mixed := 0

/-- What may happen next. -/
inductive Action where
  /-- time passes -/
  | wait (dt : ℕ)
  | receive
  | measure
  /-- the tick mixes, if the room has members -/
  | mix (members : Bool)
  | rearm
  | reset
  /-- the room is closed -/
  | exit
  deriving DecidableEq

/-- The deadline of a tick. -/
def State.due (frameSize : ℕ) (s : State) (tick : ℕ) : ℤ := s.base + tick * period frameSize

/-- One step. -/
def step (frameSize : ℕ) (s : State) : Action → Option State
  | .wait dt => some { s with now := s.now + dt }
  | .receive =>
    match s.phase with
    | .waiting timer =>
      if timer ≤ s.now then some { s with phase := .measuring, woke := s.now } else none
    | _ => none
  | .measure =>
    if s.phase = .measuring then
      let late := s.now - s.due frameSize s.tick
      if late > 0 then
        some { s with
          phase := .mixing
          jitNanosSum := s.jitNanosSum + late
          jitNanosMax := if late ≤ s.jitNanosMax then s.jitNanosMax else late
          jitCount := s.jitCount + 1 }
      else some { s with phase := .mixing, jitCount := s.jitCount + 1 }
    else none
  | .mix members =>
    if s.phase = .mixing then
      let s := { s with phase := .rearming, tick := s.tick + 1 }
      if members then
        some { s with mixTs := s.mixTs + UInt32.ofNat frameSize, mixed := s.mixed + 1 }
      else some s
    else none
  | .rearm =>
    if s.phase = .rearming then some { s with phase := .resetting (s.due frameSize s.tick - s.now) }
    else none
  | .reset =>
    match s.phase with
    | .resetting d => some { s with phase := .waiting (s.now + max d 0) }
    | _ => none
  | .exit =>
    match s.phase with
    | .waiting _ => some { s with phase := .returned }
    | _ => none

/-- The ticks the clock has received from its timer. -/
def State.received (s : State) : ℕ :=
  match s.phase with
  | .measuring | .mixing => s.tick
  | _ => s.tick - 1

/-! ### No tick is early -/

variable {frameSize : ℕ} {s s' : State} {a : Action}

/-- What holds however the clock is held up. -/
structure Ok (frameSize : ℕ) (s : State) : Prop where
  tick_pos : 0 < s.tick
  due_le : s.due frameSize s.received ≤ s.woke
  woke_le : s.woke ≤ s.now
  waiting : ∀ timer, s.phase = .waiting timer → s.due frameSize s.tick ≤ timer
  resetting : ∀ d, s.phase = .resetting d → s.due frameSize s.tick ≤ s.now + d
  mixed_lt : s.mixed < s.tick
  mixTs : s.mixTs = UInt32.ofNat (s.mixed * frameSize)
  max_nonneg : 0 ≤ s.jitNanosMax
  sum_le : s.jitNanosSum ≤ s.jitCount * s.jitNanosMax

theorem ok_start (now : ℤ) : Ok frameSize (start now) where
  tick_pos := Nat.one_pos
  due_le := by simp [State.due, State.received, start]
  woke_le := le_refl _
  waiting := fun timer h => by cases h
  resetting := fun d h => by cases h
  mixed_lt := Nat.one_pos
  mixTs := by simp [start]
  max_nonneg := le_refl _
  sum_le := by simp [start]

/-- What an enabled step leaves. -/
inductive Stepped (frameSize : ℕ) (s : State) : Action → State → Prop
  | wait (dt : ℕ) : Stepped frameSize s (.wait dt) { s with now := s.now + dt }
  | receive (timer : ℤ) (hphase : s.phase = .waiting timer) (hdue : timer ≤ s.now) :
      Stepped frameSize s .receive { s with phase := .measuring, woke := s.now }
  | late (hphase : s.phase = .measuring) (hlate : 0 < s.now - s.due frameSize s.tick) :
      Stepped frameSize s .measure
        { s with
          phase := .mixing
          jitNanosSum := s.jitNanosSum + (s.now - s.due frameSize s.tick)
          jitNanosMax := max s.jitNanosMax (s.now - s.due frameSize s.tick)
          jitCount := s.jitCount + 1 }
  | onTime (hphase : s.phase = .measuring) :
      Stepped frameSize s .measure { s with phase := .mixing, jitCount := s.jitCount + 1 }
  | mix (hphase : s.phase = .mixing) :
      Stepped frameSize s (.mix true)
        { s with
          phase := .rearming
          tick := s.tick + 1
          mixTs := s.mixTs + UInt32.ofNat frameSize
          mixed := s.mixed + 1 }
  | skip (hphase : s.phase = .mixing) :
      Stepped frameSize s (.mix false) { s with phase := .rearming, tick := s.tick + 1 }
  | rearm (hphase : s.phase = .rearming) :
      Stepped frameSize s .rearm { s with phase := .resetting (s.due frameSize s.tick - s.now) }
  | reset (d : ℤ) (hphase : s.phase = .resetting d) :
      Stepped frameSize s .reset { s with phase := .waiting (s.now + max d 0) }
  | exit (timer : ℤ) (hphase : s.phase = .waiting timer) :
      Stepped frameSize s .exit { s with phase := .returned }

theorem step_cases (h : step frameSize s a = some s') : Stepped frameSize s a s' := by
  cases a with
  | wait dt =>
    obtain rfl := Option.some.inj h
    exact .wait dt
  | receive =>
    simp only [step] at h
    split at h
    next timer hphase =>
      obtain ⟨hdue, h⟩ := Option.ite_none_right_eq_some.mp h
      obtain rfl := Option.some.inj h
      exact .receive timer hphase hdue
    next => cases h
  -- the code keeps the larger lateness by a comparison
  | measure =>
    obtain ⟨hphase, h⟩ := Option.ite_none_right_eq_some.mp h
    split at h
    next hlate =>
      obtain rfl := Option.some.inj h
      rw [← max_def, max_comm]
      exact .late hphase hlate
    next =>
      obtain rfl := Option.some.inj h
      exact .onTime hphase
  | mix members =>
    obtain ⟨hphase, h⟩ := Option.ite_none_right_eq_some.mp h
    cases members with
    | true =>
      obtain rfl := Option.some.inj h
      exact .mix hphase
    | false =>
      obtain rfl := Option.some.inj h
      exact .skip hphase
  | rearm =>
    obtain ⟨hphase, h⟩ := Option.ite_none_right_eq_some.mp h
    obtain rfl := Option.some.inj h
    exact .rearm hphase
  | reset =>
    simp only [step] at h
    split at h
    next d hphase =>
      obtain rfl := Option.some.inj h
      exact .reset d hphase
    next => cases h
  | exit =>
    simp only [step] at h
    split at h
    next timer hphase =>
      obtain rfl := Option.some.inj h
      exact .exit timer hphase
    next => cases h

theorem due_succ (s : State) (n : ℕ) :
    s.due frameSize (n + 1) = s.due frameSize n + period frameSize := by
  simp only [State.due]
  push_cast
  ring

/-- While a tick is worked on, it is the last one received. -/
theorem State.received_of_working (h : s.phase = .measuring ∨ s.phase = .mixing) :
    s.received = s.tick := by
  rcases h with h | h <;> rw [State.received, h]

/-- Otherwise the last one received is the one before. -/
theorem State.received_of_resting (h : s.phase ≠ .measuring) (h' : s.phase ≠ .mixing) :
    s.received = s.tick - 1 := by
  unfold State.received
  split
  next heq => exact absurd heq h
  next heq => exact absurd heq h'
  next => rfl

/-- **No tick is early**, however the clock is held up. -/
theorem Ok.step (hs : Ok frameSize s) (h : Stepped frameSize s a s') : Ok frameSize s' := by
  have hdue := hs.due_le
  cases h with
  | wait dt =>
    have hle : s.now ≤ s.now + dt := Int.le_add_of_nonneg_right (Int.natCast_nonneg dt)
    exact { hs with
      woke_le := hs.woke_le.trans hle
      resetting := fun d hd => (hs.resetting d hd).trans (Int.add_le_add_right hle d) }
  | receive timer hphase hnow =>
    exact { hs with
      due_le := (hs.waiting timer hphase).trans hnow
      woke_le := le_refl _
      waiting := fun _ h => by cases h
      resetting := fun _ h => by cases h }
  -- lateness measured: it enters the sum once, and the maximum covers it
  | late hphase hlate =>
    rw [State.received_of_working (.inl hphase)] at hdue
    have hmax : s.jitNanosMax ≤ max s.jitNanosMax (s.now - s.due frameSize s.tick) :=
      le_max_left _ _
    exact { hs with
      due_le := hdue
      waiting := fun _ h => by cases h
      resetting := fun _ h => by cases h
      max_nonneg := hs.max_nonneg.trans hmax
      sum_le := by
        show s.jitNanosSum + (s.now - s.due frameSize s.tick)
          ≤ ((s.jitCount + 1 : ℕ) : ℤ) * max s.jitNanosMax (s.now - s.due frameSize s.tick)
        have hold : (s.jitCount : ℤ) * s.jitNanosMax
            ≤ s.jitCount * max s.jitNanosMax (s.now - s.due frameSize s.tick) :=
          Int.mul_le_mul_of_nonneg_left hmax (Int.natCast_nonneg _)
        have hnew : s.now - s.due frameSize s.tick
            ≤ max s.jitNanosMax (s.now - s.due frameSize s.tick) := le_max_right _ _
        have hsum := hs.sum_le
        push_cast
        linarith }
  | onTime hphase =>
    rw [State.received_of_working (.inl hphase)] at hdue
    exact { hs with
      due_le := hdue
      waiting := fun _ h => by cases h
      resetting := fun _ h => by cases h
      sum_le := by
        have hmax := hs.max_nonneg
        have hsum := hs.sum_le
        show s.jitNanosSum ≤ ((s.jitCount + 1 : ℕ) : ℤ) * s.jitNanosMax
        push_cast
        linarith }
  -- the tick is counted, whether it is mixed or not
  | mix hphase =>
    rw [State.received_of_working (.inr hphase)] at hdue
    exact { hs with
      tick_pos := Nat.succ_pos _
      due_le := hdue
      waiting := fun _ h => by cases h
      resetting := fun _ h => by cases h
      mixed_lt := Nat.succ_lt_succ hs.mixed_lt
      mixTs := by
        show s.mixTs + UInt32.ofNat frameSize = UInt32.ofNat ((s.mixed + 1) * frameSize)
        rw [hs.mixTs, Nat.succ_mul, UInt32.ofNat_add] }
  | skip hphase =>
    rw [State.received_of_working (.inr hphase)] at hdue
    exact { hs with
      tick_pos := Nat.succ_pos _
      due_le := hdue
      waiting := fun _ h => by cases h
      resetting := fun _ h => by cases h
      mixed_lt := Nat.lt_succ_of_lt hs.mixed_lt }
  -- the next deadline is what is left until the tick is due
  | rearm hphase =>
    rw [State.received_of_resting (by simp [hphase]) (by simp [hphase])] at hdue
    exact { hs with
      due_le := hdue
      waiting := fun _ h => by cases h
      resetting := fun d h => by
        obtain rfl := Phase.resetting.inj h
        show s.due frameSize s.tick ≤ s.now + (s.due frameSize s.tick - s.now)
        linarith }
  | reset d hphase =>
    rw [State.received_of_resting (by simp [hphase]) (by simp [hphase])] at hdue
    exact { hs with
      due_le := hdue
      waiting := fun timer h => by
        obtain rfl := Phase.waiting.inj h
        exact (hs.resetting d hphase).trans (Int.add_le_add_left (le_max_left d 0) _)
      resetting := fun _ h => by cases h }
  | exit timer hphase =>
    rw [State.received_of_resting (by simp [hphase]) (by simp [hphase])] at hdue
    exact { hs with
      due_le := hdue
      waiting := fun _ h => by cases h
      resetting := fun _ h => by cases h }

theorem ok_of_run {now : ℤ} {as : List Action} (h : Run (step frameSize) (start now) as s) :
    Ok frameSize s :=
  h.invariant (fun _ _ _ hs h => hs.step (step_cases h)) (ok_start now)

/-- There are no more mixes than ticks received. -/
theorem Ok.mixed_le (hs : Ok frameSize s) : s.mixed ≤ s.received := by
  have hlt := hs.mixed_lt
  unfold State.received
  split <;> omega

/-! ### Catching up -/

variable {δ w : ℕ} {late : ℤ}

/-- The timer is at most `δ` late, and a tick is done with within `w` of waking up. -/
def Prompt (δ w : ℕ) (s : State) : Action → Prop
  | .wait dt =>
    match s.phase with
    | .waiting timer => s.now + dt ≤ timer + δ
    | .returned => True
    | _ => s.now + dt ≤ s.woke + w
  | _ => True

instance (s : State) (a : Action) : Decidable (Prompt δ w s a) :=
  match a with
  | .wait dt =>
    match h : s.phase with
    | .waiting timer =>
      decidable_of_iff (s.now + dt ≤ timer + δ) (by simp only [Prompt, h])
    | .returned => .isTrue (by simp only [Prompt, h])
    | .measuring | .mixing | .rearming | .resetting _ =>
      decidable_of_iff (s.now + dt ≤ s.woke + w) (by simp only [Prompt, h])
  | .receive | .measure | .mix _ | .rearm | .reset | .exit => .isTrue trivial

/-- How late the clock may be, `n` ticks after it was `late`: each takes back what of its
period it does not use, until the clock is as close to its deadlines as it gets. -/
def lag (frameSize δ w : ℕ) (late : ℤ) (n : ℕ) : ℤ :=
  max (w + δ) (late - n * (period frameSize - w - δ))

theorem le_lag (n : ℕ) : (w + δ : ℤ) ≤ lag frameSize δ w late n := le_max_left _ _

/-- What a tick takes back. -/
theorem lag_le_succ (hfit : w + δ ≤ period frameSize) (n : ℕ) :
    lag frameSize δ w late n - period frameSize + w + δ ≤ lag frameSize δ w late (n + 1) := by
  have hfit' : (w + δ : ℤ) ≤ period frameSize := by exact_mod_cast hfit
  have hsucc : late - (n + 1 : ℕ) * (period frameSize - w - δ : ℤ)
      = late - n * (period frameSize - w - δ : ℤ) - (period frameSize - w - δ) := by
    push_cast
    ring
  rw [lag, lag, hsucc]
  rcases le_total (w + δ : ℤ) (late - n * (period frameSize - w - δ)) with h | h
  · rw [max_eq_right h]
    exact le_trans (by linarith) (le_max_right _ _)
  · rw [max_eq_left h]
    exact le_trans (by linarith) (le_max_left _ _)

/-- What holds `received - first` ticks after the clock was `late`. -/
structure Catching (frameSize δ w first : ℕ) (late : ℤ) (s : State) : Prop where
  first_le : first ≤ s.received
  woke_le : s.woke ≤ s.due frameSize s.received
    + lag frameSize δ w late (s.received - first)
  working : s.phase.working = true → s.now ≤ s.woke + w
  resetting : ∀ d, s.phase = .resetting d → d ≤ s.due frameSize s.tick - s.woke
  waiting : ∀ timer, s.phase = .waiting timer →
    timer ≤ max (s.due frameSize s.tick) s.woke + w ∧ s.now ≤ timer + δ

/-- The deadline after the last one met. -/
theorem Catching.le_due_succ {first : ℕ} (hc : Catching frameSize δ w first late s)
    (hfit : w + δ ≤ period frameSize) :
    max (s.due frameSize (s.received + 1)) s.woke + w + δ
      ≤ s.due frameSize (s.received + 1) + lag frameSize δ w late (s.received - first + 1) := by
  rcases le_total (s.due frameSize (s.received + 1)) s.woke with h | h
  · -- still more than a period behind, so the timer is set to fire at once
    have hwoke := hc.woke_le
    have hlag : lag frameSize δ w late (s.received - first) - period frameSize + w + δ
        ≤ lag frameSize δ w late (s.received - first + 1) := lag_le_succ hfit _
    rw [max_eq_right h, due_succ]
    linarith
  · -- the timer waits for the deadline
    have hlag : (w + δ : ℤ) ≤ lag frameSize δ w late (s.received - first + 1) := le_lag _
    rw [max_eq_left h]
    linarith

/-- **The clock catches up**, a step at a time. -/
theorem Catching.step {first : ℕ} (hs : Ok frameSize s)
    (hc : Catching frameSize δ w first late s) (hfit : w + δ ≤ period frameSize)
    (hprompt : Prompt δ w s a) (h : Stepped frameSize s a s') :
    Catching frameSize δ w first late s' := by
  have hfirst := hc.first_le
  have hwoke := hc.woke_le
  cases h with
  | wait dt =>
    -- promptness is about waits alone: at the timer, before it, or while the loop works
    simp only [Prompt] at hprompt
    split at hprompt
    next timer hphase =>
      exact { hc with
        working := fun h => by rw [show s.phase.working = false by rw [hphase]; rfl] at h; cases h
        waiting := fun timer' h => by
          obtain rfl : timer' = timer := Phase.waiting.inj (h.symm.trans hphase)
          exact ⟨(hc.waiting timer' h).1, hprompt⟩ }
    next hphase =>
      exact { hc with
        working := fun h => by rw [show s.phase.working = false by rw [hphase]; rfl] at h; cases h
        waiting := fun timer h => by cases h.symm.trans hphase }
    next hne _ =>
      exact { hc with
        working := fun _ => hprompt
        waiting := fun timer h => absurd h (hne timer) }
  | receive timer hphase hnow =>
    -- the only step that adds to `received`: what is left of the delay goes down with it
    have hreceived : s.received + 1 = s.tick := by
      rw [State.received_of_resting (by simp [hphase]) (by simp [hphase])]
      exact Nat.sub_add_cancel hs.tick_pos
    obtain ⟨htimer, hlate⟩ := hc.waiting timer hphase
    have hnext := hc.le_due_succ hfit
    rw [hreceived, ← Nat.sub_add_comm hfirst, hreceived] at hnext
    exact {
      first_le := show first ≤ s.tick by omega
      woke_le := show s.now ≤ s.due frameSize s.tick + lag frameSize δ w late (s.tick - first) by
        linarith
      working := fun _ => Int.le_add_of_nonneg_right (Int.natCast_nonneg w)
      resetting := fun _ h => by cases h
      waiting := fun _ h => by cases h }
  -- the loop works on: nothing of the lag changes
  | late hphase _ | onTime hphase =>
    rw [State.received_of_working (.inl hphase)] at hfirst hwoke
    exact {
      first_le := hfirst
      woke_le := hwoke
      working := fun _ => hc.working (by rw [hphase]; rfl)
      resetting := fun _ h => by cases h
      waiting := fun _ h => by cases h }
  | mix hphase | skip hphase =>
    rw [State.received_of_working (.inr hphase)] at hfirst hwoke
    exact {
      first_le := hfirst
      woke_le := hwoke
      working := fun _ => hc.working (by rw [hphase]; rfl)
      resetting := fun _ h => by cases h
      waiting := fun _ h => by cases h }
  | rearm hphase =>
    rw [State.received_of_resting (by simp [hphase]) (by simp [hphase])] at hfirst hwoke
    exact {
      first_le := hfirst
      woke_le := hwoke
      working := fun _ => hc.working (by rw [hphase]; rfl)
      resetting := fun d h => by
        obtain rfl := Phase.resetting.inj h
        exact Int.sub_le_sub_left hs.woke_le _
      waiting := fun _ h => by cases h }
  -- the timer is set from now, so it fires by the due time or as soon as the loop is done
  | reset d hphase =>
    rw [State.received_of_resting (by simp [hphase]) (by simp [hphase])] at hfirst hwoke
    have hnow := hc.working (by rw [hphase]; rfl)
    have hd := hc.resetting d hphase
    exact {
      first_le := hfirst
      woke_le := hwoke
      working := fun h => by cases h
      resetting := fun _ h => by cases h
      waiting := fun timer h => by
        obtain rfl := Phase.waiting.inj h
        show s.now + max d 0 ≤ max (s.due frameSize s.tick) s.woke + w
          ∧ s.now ≤ s.now + max d 0 + δ
        omega }
  | exit timer hphase =>
    rw [State.received_of_resting (by simp [hphase]) (by simp [hphase])] at hfirst hwoke
    exact {
      first_le := hfirst
      woke_le := hwoke
      working := fun h => by cases h
      resetting := fun _ h => by cases h
      waiting := fun _ h => by cases h }

/-- The clock has just received from its timer, or been started. -/
def State.Woken (s : State) : Prop :=
  s.now = s.woke ∧ (s.phase = .measuring ∨ s.phase = .rearming)

theorem catching_of_woken (hs : s.Woken) :
    Catching frameSize δ w s.received (s.woke - s.due frameSize s.received) s where
  first_le := le_refl _
  woke_le := by
    have hlate : s.woke - s.due frameSize s.received
        ≤ lag frameSize δ w (s.woke - s.due frameSize s.received) 0 :=
      (by simp : _ = _).le.trans (le_max_right _ _)
    rw [Nat.sub_self]
    linarith
  working := fun _ => by
    rw [hs.1]
    exact Int.le_add_of_nonneg_right (Int.natCast_nonneg w)
  resetting := fun d h => by rcases hs.2 with h' | h' <;> cases h.symm.trans h'
  waiting := fun timer h => by rcases hs.2 with h' | h' <;> cases h.symm.trans h'

/-- At any time, not just when a tick begins. -/
theorem Catching.now_le {first : ℕ} (hs : Ok frameSize s)
    (hc : Catching frameSize δ w first late s) (hfit : w + δ ≤ period frameSize)
    (hreturned : s.phase ≠ .returned) :
    s.now ≤ s.due frameSize (s.received + 1)
      + lag frameSize δ w late (s.received - first + 1) := by
  have hnext := hc.le_due_succ hfit
  by_cases hworking : s.phase.working = true
  · have hnow := hc.working hworking
    have hmax := le_max_right (s.due frameSize (s.received + 1)) s.woke
    linarith [Int.natCast_nonneg δ]
  · obtain ⟨timer, hphase⟩ : ∃ timer, s.phase = .waiting timer := by
      cases hphase : s.phase with
      | waiting timer => exact ⟨timer, rfl⟩
      | returned => exact absurd hphase hreturned
      | _ => exact absurd (by rw [hphase]; rfl) hworking
    have hreceived : s.received + 1 = s.tick := by
      rw [State.received_of_resting (by simp [hphase]) (by simp [hphase])]
      exact Nat.sub_add_cancel hs.tick_pos
    obtain ⟨htimer, hlate⟩ := hc.waiting timer hphase
    rw [← hreceived] at htimer
    linarith

/-- The clock counts from when it was started. -/
theorem base_of_run {as : List Action} (h : Run (step frameSize) s as s') : s'.base = s.base :=
  h.invariant (I := fun s' => s'.base = s.base)
    (fun _ _ _ hs h => by cases step_cases h <;> exact hs) rfl

/-- While there are members, every tick mixes. -/
theorem mixed_of_run {as : List Action} (h : Run (step frameSize) s as s')
    (has : .mix false ∉ as) : s'.mixed + s.tick = s.mixed + s'.tick := by
  induction h with
  | nil s => rfl
  | @cons s s₁ s' a as ha _ ih =>
    have hrest := ih fun hmem => has (List.mem_cons_of_mem a hmem)
    have hone : s₁.mixed + s.tick = s.mixed + s₁.tick := by
      cases step_cases ha with
      | skip => exact absurd List.mem_cons_self has
      | mix hphase =>
        show s.mixed + 1 + s.tick = s.mixed + (s.tick + 1)
        omega
      | _ => rfl
    omega

/-- **The mix clock keeps time.**  In every run no mix is early, and every tick while the
room has members mixes.  The clock may have been held up for however long when it wakes up;
where from then on the timer is at most `δ` late and a tick takes at most `w`, which
together fit in a period, the clock catches up, and is from then on never further behind
than one tick may be. -/
theorem paced {now : ℤ} {as : List Action} (hrun : Run (step frameSize) (start now) as s) :
    (now + s.mixed * period frameSize ≤ s.now
      ∧ s.mixTs = UInt32.ofNat (s.mixed * frameSize)
      ∧ s.due frameSize s.received ≤ s.woke)
    ∧ ∀ {bs : List Action} {s' : State}, Run (step frameSize) s bs s' →
      (.mix false ∉ bs → s'.mixed + s.tick = s.mixed + s'.tick)
      ∧ ∀ {δ w : ℕ}, w + δ ≤ period frameSize → s.Woken →
        Along (step frameSize) (Prompt δ w) s bs →
        s'.woke ≤ s'.due frameSize s'.received
          + lag frameSize δ w (s.woke - s.due frameSize s.received) (s'.received - s.received)
        ∧ (s'.phase ≠ .returned → s'.now ≤ s'.due frameSize (s'.received + 1)
          + lag frameSize δ w (s.woke - s.due frameSize s.received)
            (s'.received - s.received + 1)) := by
  have hs := ok_of_run hrun
  have hbase : s.base = now := base_of_run hrun
  have hmixed : (s.mixed : ℤ) * period frameSize ≤ s.received * period frameSize :=
    Int.mul_le_mul_of_nonneg_right (by exact_mod_cast hs.mixed_le) (Int.natCast_nonneg _)
  refine ⟨⟨?_, hs.mixTs, hs.due_le⟩, fun {bs s'} hrun' => ⟨mixed_of_run hrun', ?_⟩⟩
  · have hdue := hs.due_le
    have hwoke := hs.woke_le
    rw [State.due, hbase] at hdue
    linarith
  · intro δ w hfit hwoken hprompt
    obtain ⟨hs', hc⟩ := hrun'.invariant_of_along
      (I := fun s' => Ok frameSize s' ∧ Catching frameSize δ w s.received
        (s.woke - s.due frameSize s.received) s')
      (fun _ _ _ hI hP h => ⟨hI.1.step (step_cases h), hI.2.step hI.1 hfit hP (step_cases h)⟩)
      hprompt ⟨hs, catching_of_woken hwoken⟩
    exact ⟨hc.woke_le, hc.now_le hs' hfit⟩

/-- The first tick of a room with frames of 10 ms, held up until 45 ms. -/
def heldUp : List Action := [.rearm, .reset, .wait 45000000, .receive]

/-- Ticks of 2 ms, each woken up for 1 ms after the last. -/
def hurried (n : ℕ) : List Action :=
  (List.replicate n
    [.measure, .mix true, .wait 2000000, .rearm, .reset, .wait 1000000, .receive]).flatten

/-- A clock 35 ms late is on time after five ticks. -/
theorem paced_heldUp : ∃ s s', Run (step 480) (start 0) heldUp s ∧
    s.woke - s.due 480 s.received = 35000000 ∧ Run (step 480) s (hurried 5) s' ∧
    s'.received = 6 ∧ s'.woke ≤ s'.due 480 6 + 3000000 ∧ s'.mixed + 1 = s'.tick := by
  obtain ⟨s, hs, h⟩ := (Option.any_eq_true _ _).mp
    (by decide +kernel : (exec (step 480) (start 0) heldUp).any fun s =>
      s.now = s.woke ∧ s.phase = .measuring ∧ s.woke - s.due 480 s.received = 35000000 ∧
        s.received = 1 ∧ s.tick = 1 ∧ s.mixed = 0 ∧
        checkAlong (step 480) (fun s a => decide (Prompt 1000000 2000000 s a)) s (hurried 5) ∧
        (exec (step 480) s (hurried 5)).any fun s' => s'.received = 6)
  simp only [decide_eq_true_eq] at h
  obtain ⟨hnow, hphase, hlate, hreceived, htick, hmixed, hprompt, hany⟩ := h
  obtain ⟨s', hs', hreceived'⟩ := (Option.any_eq_true _ _).mp hany
  rw [decide_eq_true_eq] at hreceived'
  obtain ⟨hmixed', hcatches⟩ := (paced (Run.of_exec hs)).2 (Run.of_exec hs')
  obtain ⟨hwoke, -⟩ := hcatches (δ := 1000000) (w := 2000000) (by decide) ⟨hnow, .inl hphase⟩
    (along_of_check (fun _ _ h => of_decide_eq_true h) hprompt)
  have hlag : lag 480 1000000 2000000 35000000 5 = 3000000 := by decide
  rw [hlate, hreceived', hreceived, hlag] at hwoke
  have hall := hmixed' (by decide)
  exact ⟨s, s', Run.of_exec hs, hlate, Run.of_exec hs', hreceived', hwoke, by omega⟩

end AmbiRTC.MixTiming
