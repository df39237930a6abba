/-
AmbiRTC/QueueAccounting.lean

The three drop-oldest queues of a session (mcu/internal/session/pipeline.go):
`inbound`, filled by `pushInbound` and emptied by `decodeLoop`; `mixCh`, filled by
`pushFrame`, which returns a displaced frame to the pool; `sendCh`, filled by
`pushSend` and emptied by `sendLoop`.  Any number of goroutines push at once, and
every channel operation and every update of a counter is a step of its own.

`sendLoop` counts on `sendDrops` as well, what it drops while the DataChannel is
congested; the account tells the two apart.

Main result: `queues_account`.
-/
import AmbiRTC.Demux
import AmbiRTC.Pipeline
import AmbiRTC.Producers
import AmbiRTC.Runs

namespace AmbiRTC

namespace Queues

open DropOldest Pipeline Runs

variable {ι α : Type}

/-! ### inbound and mixCh -/

/-- `inboundCap`. -/
def inboundCap : ℕ := channels * 8

section

variable [DecidableEq ι]

/-- `pushInbound`, its next step. -/
def pushInbound (s : Channel ι InboundPkt) (p : ι) : Option (Channel ι InboundPkt) :=
  s.advance false inboundCap p

/-- `pushFrame`, its next step; a frame is a pointer. -/
def pushFrame (s : Channel ι ℕ) (p : ι) : Option (Channel ι ℕ) :=
  s.advance true mixCap p

/-- `pushSend`, its next step. -/
def pushSend (s : Channel ι (List UInt8)) (p : ι) : Option (Channel ι (List UInt8)) :=
  s.advance false sendCap p

/-- What happens at a queue. -/
inductive Action (ι α : Type) where
  /-- goroutine `p` calls the push function -/
  | call (p : ι) (v : α)
  /-- and takes the next step of the call -/
  | push (p : ι)
  /-- the consumer takes an item -/
  | receive

/-- A queue with the push function `next` and a consumer that only receives. -/
def step (next : Channel ι α → ι → Option (Channel ι α)) (s : Channel ι α) :
    Action ι α → Option (Channel ι α)
  | .call p v => s.begin p v
  | .push p => next s p
  | .receive => s.receive.map Prod.snd

end

/-! ### sendCh -/

/-- `sendHighWater`. -/
def sendHighWater : UInt64 := (1 : UInt64) <<< 20

/-- Where `sendLoop` is. -/
inductive SendLoop (ι : Type) where
  /-- at the `select` -/
  | waiting
  /-- about to look at `congested` -/
  | holding (x : Item ι (List UInt8))
  /-- about to count the packet as dropped -/
  | dropping
  /-- about to call `dc.Send` -/
  | sending (x : Item ι (List UInt8))
  /-- about to count the packet as sent -/
  | counting
  /-- about to look at `BufferedAmount` -/
  | checking

/-- The sending end of a session. -/
structure SendSide (ι : Type) where
  sendCh : Channel ι (List UInt8)
  loop : SendLoop ι
  congested : Bool
  pktsSent : UInt64

/-- Nothing has been pushed. -/
def SendSide.start : SendSide ι where
  sendCh := Channel.empty
  loop := .waiting
  congested := false
  pktsSent := 0

/-- What happens at the sending end. -/
inductive SendAction (ι : Type) where
  | call (p : ι) (buf : List UInt8)
  | push (p : ι)
  /-- `sendLoop` takes a packet -/
  | receive
  /-- `s.congested.Load()` -/
  | load
  /-- `s.sendDrops.Add(1)` -/
  | drop
  /-- `s.dc.Send(buf)`, with what it returns -/
  | send (ok : Bool)
  /-- `s.pktsSent.Add(1)` -/
  | count
  /-- `s.dc.BufferedAmount()`, with what it returns -/
  | check (buffered : UInt64)
  /-- the `OnBufferedAmountLow` callback -/
  | bufferedAmountLow

namespace SendSide

variable [DecidableEq ι]

/-- One step of a goroutine at the sending end. -/
def step (s : SendSide ι) : SendAction ι → Option (SendSide ι)
  | .call p buf => (s.sendCh.begin p buf).map fun sendCh => { s with sendCh }
  | .push p => (pushSend s.sendCh p).map fun sendCh => { s with sendCh }
  | .receive =>
    match s.loop with
    | .waiting => s.sendCh.receive.map fun (x, sendCh) => { s with sendCh, loop := .holding x }
    | _ => none
  | .load =>
    match s.loop with
    | .holding x => some { s with loop := if s.congested then .dropping else .sending x }
    | _ => none
  | .drop =>
    match s.loop with
    | .dropping => some { s with sendCh := s.sendCh.discard, loop := .waiting }
    | _ => none
  | .send ok =>
    match s.loop with
    -- an error is logged
    | .sending _ => some { s with loop := if ok then .counting else .waiting }
    | _ => none
  | .count =>
    match s.loop with
    | .counting => some { s with pktsSent := s.pktsSent + 1, loop := .checking }
    | _ => none
  | .check buffered =>
    match s.loop with
    | .checking =>
      some { s with
        congested := if buffered > sendHighWater then true else s.congested
        loop := .waiting }
    | _ => none
  | .bufferedAmountLow => some { s with congested := false }

end SendSide

/-! ### The account -/

section

variable [DecidableEq ι] {recycle : Bool} {cap : ℕ}

/-- Only `sendLoop` counts an item as dropped that no push has displaced. -/
theorem discarded_step {s s' : Channel ι α} {a : Action ι α}
    (hs : step (fun s p => s.advance recycle cap p) s a = some s') :
    s'.discarded = s.discarded := by
  cases a with
  | call p v =>
    simp only [step, Channel.begin] at hs
    split at hs
    case h_1 => cases hs
    case h_2 => rw [← Option.some.inj hs]
  | push p =>
    simp only [step, Channel.advance] at hs
    split at hs
    case h_1 => cases hs
    all_goals rw [← Option.some.inj hs]
  | receive =>
    simp only [step, Channel.receive] at hs
    split at hs
    case h_1 => cases hs
    case h_2 => rw [← Option.some.inj hs]

theorem discarded_run {s : Channel ι α} {as : List (Action ι α)}
    (h : Run (step fun s p => s.advance recycle cap p) Channel.empty as s) : s.discarded = 0 :=
  h.invariant (fun _ _ _ hzero hs => (discarded_step hs).trans hzero) rfl

variable [Fintype ι]

/-- **What holds at a queue whatever the schedule.**  It keeps within its capacity;
what has been queued has been queued once, and is taken from the front; what
survives of one producer leaves in the order pushed; and while no push is under
way every item pushed is queued, taken or counted, in one of these places once. -/
structure Accounted (cap : ℕ) (s : Channel ι α) : Prop where
  length_le : s.queue.length ≤ cap
  queued_once : s.enqueued.Nodup
  first_out : (s.taken ++ s.queue).Sublist s.enqueued
  in_order : ∀ p, (Channel.own p (s.taken ++ s.queue)).Sublist (Channel.own p s.pushed)
  each_once : s.Quiet → s.pushed.Perm (s.queue ++ s.taken ++ s.dropped)
  count_eq : s.Quiet → s.pushed.length = s.queue.length + s.taken.length + s.dropped.length
  drops_eq : s.drops = UInt64.ofNat (s.dropped.length + s.discarded)

theorem accounted {s : Channel ι α} (h : s.Inv recycle cap) :
    Accounted cap s where
  length_le := h.length_le
  queued_once := h.nodup_enqueued
  first_out := h.kept
  in_order := h.leaves_in_order
  each_once := h.settled
  count_eq hq := by
    rw [(h.settled hq).length_eq, List.length_append, List.length_append]
  drops_eq := h.drops_eq

/-- One step at a queue keeps its account. -/
theorem inv_step {s s' : Channel ι α} {a : Action ι α} (h : s.Inv recycle cap)
    (hs : step (fun s p => s.advance recycle cap p) s a = some s') : s'.Inv recycle cap := by
  cases a with
  | call p v => exact Channel.inv_begin h hs
  | push p => exact Channel.inv_advance h hs
  | receive =>
    obtain ⟨⟨x, t⟩, hr, rfl⟩ := Option.map_eq_some_iff.mp hs
    exact Channel.inv_receive h hr

theorem inv_run {s : Channel ι α} {as : List (Action ι α)}
    (h : Run (step fun s p => s.advance recycle cap p) Channel.empty as s) :
    s.Inv recycle cap :=
  h.invariant (fun _ _ _ => inv_step) (Channel.inv_empty recycle cap)

/-- One step at the sending end keeps the account of `sendCh`. -/
theorem inv_sendStep {s s' : SendSide ι} {a : SendAction ι} (h : s.sendCh.Inv false sendCap)
    (hs : s.step a = some s') : s'.sendCh.Inv false sendCap := by
  cases a with
  | call p buf =>
    obtain ⟨t, hb, rfl⟩ := Option.map_eq_some_iff.mp hs
    exact Channel.inv_begin h hb
  | push p =>
    obtain ⟨t, ha, rfl⟩ := Option.map_eq_some_iff.mp hs
    exact Channel.inv_advance h ha
  | receive =>
    cases hloop : s.loop <;> simp only [SendSide.step, hloop, reduceCtorEq] at hs
    obtain ⟨⟨x, t⟩, hr, rfl⟩ := Option.map_eq_some_iff.mp hs
    exact Channel.inv_receive h hr
  | drop =>
    cases hloop : s.loop <;> simp only [SendSide.step, hloop, reduceCtorEq] at hs
    obtain rfl := Option.some.inj hs
    exact Channel.inv_discard h
  | load | send ok | count | check buffered =>
    cases hloop : s.loop <;> simp only [SendSide.step, hloop, reduceCtorEq] at hs
    obtain rfl := Option.some.inj hs
    exact h
  | bufferedAmountLow =>
    obtain rfl := Option.some.inj hs
    exact h

theorem inv_sendRun {s : SendSide ι} {as : List (SendAction ι)}
    (h : Run SendSide.step SendSide.start as s) : s.sendCh.Inv false sendCap :=
  h.invariant (fun _ _ _ => inv_sendStep) (Channel.inv_empty false sendCap)

/-- **The drop-oldest queues account for every item**, for any number of
goroutines pushing and any order of steps: `sendCh` with `sendLoop`, `inbound`, and
`mixCh`, where every frame displaced goes back to the pool once, and no other
does. -/
theorem queues_account :
    (∀ as (s : SendSide ι), Run SendSide.step SendSide.start as s →
      Accounted sendCap s.sendCh) ∧
    (∀ as (s : Channel ι InboundPkt), Run (step pushInbound) Channel.empty as s →
      Accounted inboundCap s ∧ s.discarded = 0) ∧
    (∀ as (s : Channel ι ℕ), Run (step pushFrame) Channel.empty as s →
      Accounted mixCap s ∧ s.discarded = 0 ∧ (s.Quiet → s.returned.Perm s.dropped)) := by
  refine ⟨fun as s h => accounted (inv_sendRun h), fun as s h => ?_, fun as s h => ?_⟩
  · exact ⟨accounted (inv_run h), discarded_run h⟩
  · have hinv : s.Inv true mixCap := inv_run h
    exact ⟨accounted hinv, discarded_run h, hinv.returned_perm⟩

/-- Nine frames pushed by two goroutines, and one of them pushed out again. -/
def nineFrames : List (Action Bool ℕ) :=
  (List.range 8).flatMap (fun fr => [.call (fr % 2 == 0) fr, .push (fr % 2 == 0)]) ++
    [.call true 8, .push true, .push true, .push true, .push true, .push true]

theorem queues_account_nineFrames : ∃ s : Channel Bool ℕ,
    Run (step pushFrame) Channel.empty nineFrames s ∧ s.Quiet ∧ s.dropped.length = 1 ∧
      s.pushed.length = s.queue.length + s.taken.length + s.dropped.length ∧
        s.returned.Perm s.dropped := by
  obtain ⟨s, hs, h⟩ := (Option.any_eq_true _ _).mp
    (by decide +kernel : (exec (step pushFrame) Channel.empty nineFrames).any (fun s =>
      decide ((s.producers true).isNone ∧ (s.producers false).isNone ∧ s.dropped.length = 1))
        = true)
  have hrun := Run.of_exec hs
  have hquiet : s.Quiet := fun p => by
    cases p
    · exact Option.isNone_iff_eq_none.mp (of_decide_eq_true h).2.1
    · exact Option.isNone_iff_eq_none.mp (of_decide_eq_true h).1
  obtain ⟨haccount, -, hreturned⟩ := (@queues_account Bool _ _).2.2 _ s hrun
  exact ⟨s, hrun, hquiet, (of_decide_eq_true h).2.2, haccount.count_eq hquiet, hreturned hquiet⟩

end

end Queues

end AmbiRTC
