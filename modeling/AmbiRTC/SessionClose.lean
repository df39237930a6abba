/-
AmbiRTC/SessionClose.lean

Opening against closing a session (mcu/internal/session/pipeline.go
`startPipeline`, session.go `attachDataChannel`, `Close`).  The DataChannel's
open callback starts the pipeline and joins the room; `Close` leaves the room,
closes `done` and the PeerConnection, and waits for the pipeline.  They run on
different goroutines, and nothing orders the join against the leave.

A schedule is any interleaving of the two with the ends of the pipeline's
goroutines and with other sessions joining and leaving rooms.

Main results: at the end of a schedule the session is gone from the manager if
and only if the join came before the leave (`deregistered_iff`); in the other
order it stays as a member nobody will remove (`lateJoin_stays`).
-/
import AmbiRTC.Rooms
import AmbiRTC.Runs

namespace AmbiRTC

open Runs

namespace SessionClose

variable {P : Type}

/-! ### The two goroutines -/

/-- Where the open callback is in `startPipeline`. -/
inductive Opener where
  | pending
  | joining
  | finished
  deriving DecidableEq, Repr

/-- Where `Close` is. -/
inductive Closer where
  | leaving
  | closing
  | closingPC
  | waiting
  | finished
  deriving DecidableEq, Repr

/-- The room manager and one session that is opened and closed. -/
structure State (P : Type) where
  rooms : Manager P
  opener : Opener
  closer : Closer
  startOnce : Bool
  closeOnce : Bool
  /-- whether `s.done` is closed -/
  done : Bool
  pcClosed : Bool
  wg : ℕ

/-- Before either has begun. -/
def initial (rooms : Manager P) : State P where
  rooms := rooms
  opener := .pending
  closer := .leaving
  startOnce := false
  closeOnce := false
  done := false
  pcClosed := false
  wg := 0

/-- What may happen next. -/
inductive Action (P : Type) where
  /-- the callback enters `startOnce` and launches the goroutines -/
  | start
  /-- the callback calls `rooms.Join` -/
  | join
  /-- `Close` calls `rooms.Leave` -/
  | leave
  /-- `Close` closes `done`, once -/
  | closeDone
  | closePC
  /-- `wg.Wait` returns -/
  | wait
  /-- a pipeline goroutine sees `done` and returns -/
  | exit
  | otherJoin (roomID : String) (p : P)
  | otherLeave (roomID id : String)
  deriving DecidableEq, Repr

/-- One step of the session `me` of room `roomID`, or of its surroundings. -/
def step (ID : P → String) (me : P) (roomID : String) (encWorkers : ℕ) (s : State P) :
    Action P → Option (State P)
  | .start =>
    if s.opener = .pending then
      if s.startOnce then some { s with opener := .finished }
      else some { s with startOnce := true, wg := s.wg + (4 + encWorkers), opener := .joining }
    else none
  | .join =>
    if s.opener = .joining then
      some { s with rooms := s.rooms.join ID roomID me, opener := .finished }
    else none
  | .leave =>
    if s.closer = .leaving then
      some { s with rooms := s.rooms.leave roomID (ID me), closer := .closing }
    else none
  | .closeDone =>
    if s.closer = .closing then
      if s.closeOnce then some { s with closer := .closingPC }
      else some { s with closeOnce := true, done := true, closer := .closingPC }
    else none
  | .closePC =>
    if s.closer = .closingPC then some { s with pcClosed := true, closer := .waiting } else none
  | .wait =>
    if s.closer = .waiting ∧ s.wg = 0 then some { s with closer := .finished } else none
  | .exit => if s.done = true ∧ 0 < s.wg then some { s with wg := s.wg - 1 } else none
  | .otherJoin roomID p =>
    if ID p = ID me then none else some { s with rooms := s.rooms.join ID roomID p }
  | .otherLeave roomID id =>
    if id = ID me then none else some { s with rooms := s.rooms.leave roomID id }

/-! ### Deregistered -/

/-- No room has the session as a member, and a room that would be empty without
it is gone, with its mix clock stopped. -/
structure Deregistered (rooms : Manager P) (id : String) : Prop where
  absent : ∀ room, rooms.member room id = none
  destroyed : ∀ room, (∀ id', id' ≠ id → rooms.member room id' = none) →
    rooms.rooms.lookup room = none ∧ ∀ rm ∈ rooms.heap, rm.id = room → rm.Stopped

/-- In a valid manager an absent session holds no room open. -/
theorem deregistered_of_absent {rooms : Manager P} (h : rooms.Valid) {id : String}
    (habsent : ∀ room, rooms.member room id = none) : Deregistered rooms id := by
  refine ⟨habsent, fun room hothers => ?_⟩
  have hgone : rooms.rooms.lookup room = none := by
    -- a room of the manager has a member, which is neither the session nor another
    rcases hr : rooms.rooms.lookup room with - | r
    · rfl
    · obtain ⟨id', p, hp⟩ := h.exists_member hr
      by_cases hid : id' = id
      · rw [hid, habsent] at hp
        cases hp
      · rw [hothers id' hid] at hp
        cases hp
  refine ⟨hgone, fun rm hmem hid => ?_⟩
  obtain ⟨r, hlt, hget⟩ := List.getElem_of_mem hmem
  have hget' : rooms.heap[r]? = some rm := by rw [List.getElem?_eq_getElem hlt, hget]
  -- a clock runs on only while the manager knows its room
  refine h.stopped r rm hget' fun roomID hr => ?_
  obtain ⟨rm', hrm', hid', -⟩ := h.live roomID r hr
  obtain rfl := Option.some.inj (hget'.symm.trans hrm')
  rw [← hid', hid, hgone] at hr
  cases hr

/-! ### What a schedule has done so far -/

variable {ID : P → String} {me : P} {roomID : String} {encWorkers : ℕ}

/-- The session has joined, and not left after that. -/
def Registered (past : List (Action P)) : Prop :=
  .join ∈ past ∧ ¬ Before .join .leave past

/-- After `past`: who has taken which step, and where the session is a member. -/
structure Tracked (ID : P → String) (me : P) (roomID : String) (past : List (Action P))
    (s : State P) : Prop where
  valid : s.rooms.Valid
  joined : .join ∈ past ↔ s.opener = .finished
  left : .leave ∈ past ↔ s.closer ≠ .leaving
  once : s.opener = .pending → s.startOnce = false
  elsewhere : ∀ room, room ≠ roomID → s.rooms.member room (ID me) = none
  absent : ¬ Registered past → s.rooms.member roomID (ID me) = none
  present : Registered past → s.rooms.member roomID (ID me) = some me

theorem tracked_initial {rooms : Manager P} (h : rooms.Valid)
    (habsent : ∀ room, rooms.member room (ID me) = none) :
    Tracked ID me roomID [] (initial rooms) where
  valid := h
  joined := by simp [initial]
  left := by simp [initial]
  once := fun _ => rfl
  elsewhere := fun room _ => habsent room
  absent := fun _ => habsent roomID
  present := fun hreg => absurd hreg.1 List.not_mem_nil

/-- A step other than the join and the leave leaves both as they were. -/
theorem registered_concat {past : List (Action P)} {a : Action P} (hj : a ≠ .join)
    (hl : a ≠ .leave) : Registered (past ++ [a]) ↔ Registered past := by
  unfold Registered
  rw [before_concat_iff, List.mem_append, List.mem_singleton]
  simp [Ne.symm hj, hl]

/-- Steps that touch neither the session's membership nor its order of events. -/
theorem Tracked.other {past : List (Action P)} {s s' : State P} {a : Action P}
    (h : Tracked ID me roomID past s) (hj : a ≠ .join) (hl : a ≠ .leave)
    (hvalid : s'.rooms.Valid)
    (hmember : ∀ room, s'.rooms.member room (ID me) = s.rooms.member room (ID me))
    (hopener : s'.opener = .finished ↔ s.opener = .finished)
    (hcloser : s'.closer ≠ .leaving ↔ s.closer ≠ .leaving)
    (honce : s'.opener = .pending → s'.startOnce = false) :
    Tracked ID me roomID (past ++ [a]) s' where
  valid := hvalid
  joined := by
    rw [List.mem_append, List.mem_singleton, hopener, ← h.joined]
    simp [Ne.symm hj]
  left := by
    rw [List.mem_append, List.mem_singleton, hcloser, ← h.left]
    simp [Ne.symm hl]
  once := honce
  elsewhere := fun room hroom => by rw [hmember, h.elsewhere room hroom]
  absent := fun hreg => by
    rw [hmember]
    exact h.absent fun hreg' => hreg ((registered_concat hj hl).mpr hreg')
  present := fun hreg => by
    rw [hmember]
    exact h.present ((registered_concat hj hl).mp hreg)

/-- The session joins. -/
theorem Tracked.join {past : List (Action P)} {s : State P} (h : Tracked ID me roomID past s)
    (hjoining : s.opener = .joining) :
    Tracked ID me roomID (past ++ [.join])
      { s with rooms := s.rooms.join ID roomID me, opener := .finished } := by
  -- this is the first join, so no leave came after it yet
  have hnot : .join ∉ past := by
    rw [h.joined, hjoining]
    simp
  have hbefore : ¬ Before .join .leave (past ++ [.join]) := by
    rw [before_concat_iff]
    rintro (hb | ⟨hc, -⟩)
    · exact hnot hb.mem_left
    · cases hc
  exact
    { valid := h.valid.join roomID me
      joined := by simp
      left := by
        rw [List.mem_append, ← h.left]
        simp
      once := by simp
      elsewhere := fun room hroom => by
        rw [h.valid.member_join, if_neg (fun hboth => hroom hboth.1), h.elsewhere room hroom]
      absent := fun hreg => absurd ⟨by simp, hbefore⟩ hreg
      present := fun _ => by
        rw [h.valid.member_join, if_pos ⟨rfl, rfl⟩] }

/-- `Close` leaves the room. -/
theorem Tracked.leave {past : List (Action P)} {s : State P} (h : Tracked ID me roomID past s) :
    Tracked ID me roomID (past ++ [.leave])
      { s with rooms := s.rooms.leave roomID (ID me), closer := .closing } := by
  -- whether or not the session has joined, it is not registered any more
  have hgone : ¬ Registered (past ++ [.leave]) := by
    rintro ⟨hmem, hbefore⟩
    have hjoin : .join ∈ past := by simpa using hmem
    exact hbefore (before_concat_iff.mpr (Or.inr ⟨rfl, hjoin⟩))
  exact
    { valid := h.valid.leave roomID (ID me)
      joined := by
        rw [List.mem_append, ← h.joined]
        simp
      left := by simp
      once := h.once
      elsewhere := fun room hroom => by
        rw [h.valid.member_leave, if_neg (fun hboth => hroom hboth.1), h.elsewhere room hroom]
      absent := fun _ => by
        rw [h.valid.member_leave, if_pos ⟨rfl, rfl⟩]
      present := fun hreg => absurd hreg hgone }

/-- **One step of a schedule.** -/
theorem tracked_step {past : List (Action P)} {s s' : State P} {a : Action P}
    (h : Tracked ID me roomID past s)
    (hstep : step ID me roomID encWorkers s a = some s') :
    Tracked ID me roomID (past ++ [a]) s' := by
  cases a with
  | start =>
    simp only [step] at hstep
    split at hstep
    case isTrue hpending =>
      -- `startOnce` has not run, so the callback goes on to join
      rw [if_neg (by simp [h.once hpending])] at hstep
      obtain rfl := Option.some.inj hstep
      exact h.other (by simp) (by simp) h.valid (fun _ => rfl) (by simp [hpending]) Iff.rfl
        (by simp)
    case isFalse => cases hstep
  | join =>
    simp only [step] at hstep
    split at hstep
    case isTrue hjoining =>
      obtain rfl := Option.some.inj hstep
      exact h.join hjoining
    case isFalse => cases hstep
  | leave =>
    simp only [step] at hstep
    split at hstep
    case isTrue =>
      obtain rfl := Option.some.inj hstep
      exact h.leave
    case isFalse => cases hstep
  | closeDone =>
    simp only [step] at hstep
    split at hstep
    case isTrue hclosing =>
      split at hstep <;>
        obtain rfl := Option.some.inj hstep <;>
        exact h.other (by simp) (by simp) h.valid (fun _ => rfl) Iff.rfl (by simp [hclosing])
          h.once
    case isFalse => cases hstep
  | closePC =>
    simp only [step] at hstep
    split at hstep
    case isTrue hclosing =>
      obtain rfl := Option.some.inj hstep
      exact h.other (by simp) (by simp) h.valid (fun _ => rfl) Iff.rfl (by simp [hclosing]) h.once
    case isFalse => cases hstep
  | wait =>
    simp only [step] at hstep
    split at hstep
    case isTrue hwaiting =>
      obtain rfl := Option.some.inj hstep
      exact h.other (by simp) (by simp) h.valid (fun _ => rfl) Iff.rfl (by simp [hwaiting.1]) h.once
    case isFalse => cases hstep
  | exit =>
    simp only [step] at hstep
    split at hstep
    case isTrue =>
      obtain rfl := Option.some.inj hstep
      exact h.other (by simp) (by simp) h.valid (fun _ => rfl) Iff.rfl Iff.rfl h.once
    case isFalse => cases hstep
  | otherJoin room p =>
    simp only [step] at hstep
    split at hstep
    case isTrue => cases hstep
    case isFalse hid =>
      obtain rfl := Option.some.inj hstep
      refine h.other (by simp) (by simp) (h.valid.join room p) (fun room' => ?_) Iff.rfl Iff.rfl
        h.once
      rw [h.valid.member_join, if_neg (fun hboth => hid hboth.2.symm)]
  | otherLeave room id =>
    simp only [step] at hstep
    split at hstep
    case isTrue => cases hstep
    case isFalse hid =>
      obtain rfl := Option.some.inj hstep
      refine h.other (by simp) (by simp) (h.valid.leave room id) (fun room' => ?_) Iff.rfl Iff.rfl
        h.once
      rw [h.valid.member_leave, if_neg (fun hboth => hid hboth.2.symm)]

/-! ### Complete schedules -/

/-- **Closing deregisters, if and only if the join came first.**  At the end of
any schedule in which the callback has finished, the session is gone from every
room, and rooms without it are torn down, exactly when its join came before the
leave of `Close`. -/
theorem deregistered_iff {rooms : Manager P} (hvalid : rooms.Valid)
    (habsent : ∀ room, rooms.member room (ID me) = none) {acts : List (Action P)} {s : State P}
    (hrun : Run (step ID me roomID encWorkers) (initial rooms) acts s)
    (hopener : s.opener = .finished) : Deregistered s.rooms (ID me) ↔ Before .join .leave acts := by
  have htracked : Tracked ID me roomID ([] ++ acts) s :=
    hrun.invariant_history (I := Tracked ID me roomID) (P := fun _ _ => True)
      (fun _ _ _ _ hs _ hstep => tracked_step hs hstep) (fun _ _ _ _ _ _ => trivial)
      (tracked_initial hvalid habsent)
  rw [List.nil_append] at htracked
  have hjoin : .join ∈ acts := htracked.joined.mpr hopener
  constructor
  · intro hdereg
    -- joined, and not left after that: still a member
    by_contra hbefore
    have hpresent := htracked.present ⟨hjoin, hbefore⟩
    rw [hdereg.absent roomID] at hpresent
    cases hpresent
  · intro hbefore
    refine deregistered_of_absent htracked.valid fun room => ?_
    by_cases hroom : room = roomID
    · rw [hroom]
      exact htracked.absent fun hreg => hreg.2 hbefore
    · exact htracked.elsewhere room hroom

/-- Open, then close, with one encode worker. -/
def orderly : List (Action String) :=
  [.start, .join, .leave, .closeDone, .closePC, .exit, .exit, .exit, .exit, .exit, .wait]

/-- Session `a` opened and closed alone in room `r`: it is deregistered. -/
theorem deregistered_orderly :
    ∃ s, Run (step id "a" "r" 1) (initial (newManager 16 960)) orderly s ∧
      (Deregistered s.rooms "a" ↔ Before .join .leave orderly) := by
  refine ⟨_, Run.of_exec rfl, ?_⟩
  exact @deregistered_iff String id "a" "r" 1 _ (Manager.valid_new 16 960) (fun _ => rfl) orderly
    _ (Run.of_exec rfl) rfl

/-- The callback has launched the pipeline when `Close` leaves the room, and
joins it afterwards. -/
def overtaken : List (Action String) :=
  [.start, .leave, .closeDone, .closePC, .join, .exit, .exit, .exit, .exit, .exit, .wait]

/-- **A late join stays.**  Both goroutines have finished, and the session is a
member of its room. -/
theorem lateJoin_stays :
    ¬ ∀ (encWorkers : ℕ) (acts : List (Action String)) (s : State String),
      Run (step id "a" "r" encWorkers) (initial (newManager 16 960)) acts s →
      s.opener = .finished → s.closer = .finished → Deregistered s.rooms "a" := by
  intro h
  have hrun : ∃ s, Run (step id "a" "r" 1) (initial (newManager 16 960)) overtaken s ∧
      s.opener = .finished ∧ s.closer = .finished ∧ s.rooms.member "r" "a" = some "a" :=
    ⟨_, Run.of_exec rfl, rfl, rfl, rfl⟩
  obtain ⟨s, hrun, hopener, hcloser, hmember⟩ := hrun
  have habsent := (h 1 overtaken s hrun hopener hcloser).absent "r"
  rw [hmember] at habsent
  cases habsent

end SessionClose

end AmbiRTC
