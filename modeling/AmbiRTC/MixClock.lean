/-
AmbiRTC/MixClock.lean

The mix clocks of the rooms against the manager's `Join` and `Leave`
(mcu/internal/room/room.go `snapshot`, `mixClock`).  A tick copies the roster
under the room's lock and then, without it, reads every member's input frame and
submits to every member its mix.  Whoever leaves meanwhile is still in the copy.

A tick is the list of calls it has yet to make; what is summed and subtracted
does not matter here, nor does `IsRecording`.

Main results: after a `Leave` the room makes no call on the participant, until
the id joins again, if and only if none was outstanding (`departed_iff`); with a
tick under way it still calls (`not_departed_midTick`).
-/
import AmbiRTC.Rooms
import AmbiRTC.Runs

namespace AmbiRTC.MixClock

open Runs

variable {P : Type}

/-! ### Ticks -/

/-- What a tick calls on a participant. -/
inductive Call (P : Type) where
  | readInputFrame (p : P)
  | submitMix (p : P)
  deriving DecidableEq, Repr

/-- The participant called. -/
def Call.on : Call P → P
  | .readInputFrame p => p
  | .submitMix p => p

/-- The calls of a tick on a snapshot: `accumulate`, then the loop of `SubmitMix`. -/
def calls (members : List P) : List (Call P) :=
  members.map .readInputFrame ++ members.map .submitMix

theorem on_mem {members : List P} {c : Call P} (h : c ∈ calls members) : c.on ∈ members := by
  rcases List.mem_append.mp h with h | h <;>
  · obtain ⟨p, hp, rfl⟩ := List.mem_map.mp h
    exact hp

/-- `snapshot`, in the order the map is iterated in. -/
def snapshot (rm : Room P) (order : List String) : List P := order.filterMap rm.members.lookup

/-- The manager, and for each room object what its mix clock has yet to call in
its tick; `none` once the clock has returned. -/
structure State (P : Type) where
  manager : Manager P
  clock : ℕ → Option (List (Call P))

/-- A server without rooms. -/
def start (channels frameSize : ℕ) : State P where
  manager := newManager channels frameSize
  clock := fun _ => some []

/-- What may happen next. -/
inductive Action (P : Type) where
  | join (roomID : String) (p : P)
  | leave (roomID id : String)
  /-- a room's timer fires, and its roster is copied -/
  | tick (r : ℕ) (order : List String)
  /-- a tick makes its next call -/
  | call (r : ℕ)
  /-- a mix clock sees `done` and returns -/
  | exit (r : ℕ)
  deriving DecidableEq, Repr

/-- One step.  At the select a clock whose room is done may still take its timer. -/
def step (ID : P → String) (s : State P) : Action P → Option (State P)
  | .join roomID p => some { s with manager := s.manager.join ID roomID p }
  | .leave roomID id => some { s with manager := s.manager.leave roomID id }
  | .tick r order =>
    match s.clock r, s.manager.heap[r]? with
    | some [], some rm =>
      if rm.clockOn ∧ order.Perm rm.members.keys then
        some { s with clock := Function.update s.clock r (some (calls (snapshot rm order))) }
      else none
    | _, _ => none
  | .call r =>
    match s.clock r with
    | some (_ :: rest) => some { s with clock := Function.update s.clock r (some rest) }
    | _ => none
  | .exit r =>
    match s.clock r, s.manager.heap[r]? with
    | some [], some rm =>
      if rm.clockOn ∧ rm.done then some { s with clock := Function.update s.clock r none }
      else none
    | _, _ => none

/-- What a step does. -/
inductive Stepped (ID : P → String) (s : State P) : Action P → State P → Prop
  | join {roomID : String} {p : P} :
      Stepped ID s (.join roomID p) { s with manager := s.manager.join ID roomID p }
  | leave {roomID id : String} :
      Stepped ID s (.leave roomID id) { s with manager := s.manager.leave roomID id }
  | tick {r : ℕ} {order : List String} {rm : Room P} (hget : s.manager.heap[r]? = some rm) :
      Stepped ID s (.tick r order)
        { s with clock := Function.update s.clock r (some (calls (snapshot rm order))) }
  | call {r : ℕ} {c : Call P} {rest : List (Call P)} (hclock : s.clock r = some (c :: rest)) :
      Stepped ID s (.call r) { s with clock := Function.update s.clock r (some rest) }
  | exit {r : ℕ} {rm : Room P} (hget : s.manager.heap[r]? = some rm) :
      Stepped ID s (.exit r) { s with clock := Function.update s.clock r none }

theorem step_cases {ID : P → String} {s s' : State P} {a : Action P}
    (h : step ID s a = some s') : Stepped ID s a s' := by
  cases a with
  | join roomID p =>
    obtain rfl := Option.some.inj h
    exact .join
  | leave roomID id =>
    obtain rfl := Option.some.inj h
    exact .leave
  | tick r order =>
    simp only [step] at h
    split at h
    · obtain ⟨-, heq⟩ := Option.ite_none_right_eq_some.mp h
      obtain rfl := Option.some.inj heq
      exact .tick ‹_›
    · cases h
  | call r =>
    simp only [step] at h
    split at h
    · obtain rfl := Option.some.inj h
      exact .call ‹_›
    · cases h
  | exit r =>
    simp only [step] at h
    split at h
    · obtain ⟨-, heq⟩ := Option.ite_none_right_eq_some.mp h
      obtain rfl := Option.some.inj heq
      exact .exit ‹_›
    · cases h

/-! ### Departures -/

section Departure

variable (ID : P → String) (s : State P) (roomID id : String)

/-- The action calls the participant from a room of that name. -/
def CallsOn (a : Action P) : Prop :=
  ∃ r c rest, a = .call r ∧ s.manager.name r = some roomID ∧ s.clock r = some (c :: rest) ∧
    ID c.on = id

/-- A room of that name is in a tick that has yet to call the participant. -/
def Outstanding : Prop :=
  ∃ r rest c, s.manager.name r = some roomID ∧ s.clock r = some rest ∧ c ∈ rest ∧ ID c.on = id

/-- Whatever happens after a `Leave`, the room makes no call on the participant
before the id joins again. -/
def Departed : Prop :=
  ∀ as s', Run (step ID) s (.leave roomID id :: as) s' →
    (∀ p, .join roomID p ∈ as → ID p ≠ id) → ∀ a, ¬CallsOn ID s' roomID id a

end Departure

/-! ### Invariants -/

section Invariants

variable {ID : P → String} {s s' : State P} {roomID id : String} {a : Action P}

/-- The manager is in order, and no clock ticks before its room is made. -/
structure Inv (ID : P → String) (s : State P) : Prop where
  valid : s.manager.Valid
  keyed : s.manager.Keyed ID
  idle : ∀ r, s.manager.name r = none → s.clock r = some []

/-- The participant is not in the room, nor in a tick of it. -/
structure Gone (ID : P → String) (roomID id : String) (s : State P) : Prop where
  absent : s.manager.member roomID id = none
  quiet : ¬Outstanding ID s roomID id

theorem inv_start (channels frameSize : ℕ) : Inv ID (start channels frameSize : State P) :=
  ⟨Manager.valid_new channels frameSize, Manager.keyed_new channels frameSize, fun _ _ => rfl⟩

/-- A participant of the snapshot is a member under its own id. -/
theorem Inv.member_snapshot (hs : Inv ID s) {r : ℕ} {rm : Room P} {order : List String} {p : P}
    (hget : s.manager.heap[r]? = some rm) (hp : p ∈ snapshot rm order) :
    s.manager.member rm.id (ID p) = some p := by
  obtain ⟨id, -, hlookup⟩ := List.mem_filterMap.mp hp
  rw [hs.keyed r rm id p hget hlookup]
  exact hs.valid.member_of_lookup hget hlookup

theorem name_of_get {m : Manager P} {r : ℕ} {rm : Room P} (hget : m.heap[r]? = some rm) :
    m.name r = some rm.id := by
  rw [Manager.name, hget]
  rfl

theorem Inv.update (hs : Inv ID s) {r : ℕ} {rm : Room P} {rest : Option (List (Call P))}
    (hget : s.manager.heap[r]? = some rm) :
    Inv ID { s with clock := Function.update s.clock r rest } := by
  refine ⟨hs.valid, hs.keyed, fun r' hr' => ?_⟩
  show Function.update s.clock r rest r' = some []
  rw [Function.update_of_ne, hs.idle r' hr']
  rintro rfl
  rw [name_of_get hget] at hr'
  cases hr'

theorem Inv.kept (hs : Inv ID s) (h : step ID s a = some s') : Inv ID s' := by
  cases step_cases h with
  | @join room p =>
    refine ⟨hs.valid.join room p, hs.keyed.join room p, fun r hr => hs.idle r ?_⟩
    by_contra hne
    rw [Manager.name_join hne] at hr
    exact hne hr
  | @leave room id =>
    refine ⟨hs.valid.leave room id, hs.keyed.leave room id, fun r hr => hs.idle r ?_⟩
    rwa [Manager.name_leave] at hr
  | tick hget => exact hs.update hget
  | @call r _ _ hclock =>
    cases hget : s.manager.heap[r]? with
    | none =>
      -- a room that is not there has no tick
      rw [hs.idle r (by rw [Manager.name, hget]; rfl)] at hclock
      cases hclock
    | some rm => exact hs.update hget
  | exit hget => exact hs.update hget

/-- A clock that has fewer calls to make, or ones on others. -/
theorem Gone.update (hs : Gone ID roomID id s) {r : ℕ} {rest : Option (List (Call P))}
    (hrest : ∀ calls c, rest = some calls → s.manager.name r = some roomID → c ∈ calls →
      ID c.on ≠ id) :
    Gone ID roomID id { s with clock := Function.update s.clock r rest } := by
  refine ⟨hs.absent, ?_⟩
  rintro ⟨r', calls, c, hname, hclock, hc, hid⟩
  simp only at hname hclock
  by_cases hr : r' = r
  · subst hr
    rw [Function.update_self] at hclock
    exact hrest calls c hclock hname hc hid
  · rw [Function.update_of_ne hr] at hclock
    exact hs.quiet ⟨r', calls, c, hname, hclock, hc, hid⟩

/-- **Gone is gone**, until the id joins again. -/
theorem Gone.kept (hs : Gone ID roomID id s) (hinv : Inv ID s)
    (hjoin : ∀ p, a = .join roomID p → ID p ≠ id) (h : step ID s a = some s') :
    Gone ID roomID id s' := by
  cases step_cases h with
  | @join room p =>
    refine ⟨?_, ?_⟩
    · show (s.manager.join ID room p).member roomID id = none
      rw [hinv.valid.member_join, if_neg, hs.absent]
      rintro ⟨rfl, rfl⟩
      exact hjoin p rfl rfl
    · rintro ⟨r, rest, c, hname, hclock, hc, hid⟩
      simp only at hname hclock
      by_cases hr : s.manager.name r = none
      · rw [hinv.idle r hr] at hclock
        obtain rfl := Option.some.inj hclock
        cases hc
      · rw [Manager.name_join hr] at hname
        exact hs.quiet ⟨r, rest, c, hname, hclock, hc, hid⟩
  | @leave room id' =>
    refine ⟨?_, ?_⟩
    · show (s.manager.leave room id').member roomID id = none
      rw [hinv.valid.member_leave, hs.absent]
      split <;> rfl
    · rintro ⟨r, rest, c, hname, hclock, hc, hid⟩
      simp only [Manager.name_leave] at hname hclock
      exact hs.quiet ⟨r, rest, c, hname, hclock, hc, hid⟩
  | tick hget =>
    apply hs.update
    rintro _ c ⟨rfl⟩ hname hc rfl
    -- the copy is of the members, and it is not one
    have hmember := hinv.member_snapshot hget (on_mem hc)
    rw [name_of_get hget] at hname
    rw [Option.some.inj hname, hs.absent] at hmember
    cases hmember
  | @call r c' rest hclock =>
    apply hs.update
    rintro _ c ⟨rfl⟩ hname hc hid
    exact hs.quiet ⟨r, c' :: rest, c, hname, hclock, List.mem_cons_of_mem _ hc, hid⟩
  | exit => exact hs.update fun _ _ h => nomatch h

/-- After a `Leave` with no call outstanding the participant is gone. -/
theorem Inv.gone_leave (hs : Inv ID s) (hquiet : ¬Outstanding ID s roomID id)
    (h : step ID s (.leave roomID id) = some s') : Gone ID roomID id s' := by
  obtain rfl := Option.some.inj h
  refine ⟨?_, ?_⟩
  · show (s.manager.leave roomID id).member roomID id = none
    rw [hs.valid.member_leave, if_pos ⟨rfl, rfl⟩]
  · rintro ⟨r, rest, c, hname, hclock, hc, hid⟩
    simp only [Manager.name_leave] at hname hclock
    exact hquiet ⟨r, rest, c, hname, hclock, hc, hid⟩

theorem Gone.not_callsOn (hs : Gone ID roomID id s) : ¬CallsOn ID s roomID id a := by
  rintro ⟨r, c, rest, -, hname, hclock, hid⟩
  exact hs.quiet ⟨r, c :: rest, c, hname, hclock, List.mem_cons_self, hid⟩

/-! ### Runs -/

/-- A tick goes on to any of its calls. -/
theorem run_calls {r : ℕ} {pre post : List (Call P)} (h : s.clock r = some (pre ++ post)) :
    ∃ s', Run (step ID) s (List.replicate pre.length (.call r)) s' ∧
      s'.clock r = some post ∧ s'.manager = s.manager := by
  induction pre generalizing s with
  | nil => exact ⟨s, .nil s, h, rfl⟩
  | cons c pre ih =>
    rw [List.cons_append] at h
    let s₁ : State P := { s with clock := Function.update s.clock r (some (pre ++ post)) }
    have hstep : step ID s (.call r) = some s₁ := by
      simp only [step, h]
      rfl
    obtain ⟨s', hrun, hclock, hmanager⟩ := @ih s₁ (Function.update_self ..)
    exact ⟨s', .cons hstep hrun, hclock, hmanager⟩

/-- **No mixing after departure**, if and only if the `Leave` finds no tick of the
room with a call on the participant outstanding. -/
theorem departed_iff {channels frameSize : ℕ} {as : List (Action P)}
    (h : Run (step ID) (start channels frameSize) as s) (roomID id : String) :
    Departed ID s roomID id ↔ ¬Outstanding ID s roomID id := by
  have hinv : Inv ID s :=
    h.invariant (fun _ _ _ hs h => hs.kept h) (inv_start channels frameSize)
  constructor
  · rintro hdeparted ⟨r, rest, c, hname, hclock, hc, hid⟩
    -- let the tick go on until it makes the call
    obtain ⟨pre, post, rfl⟩ := List.mem_iff_append.mp hc
    let s₁ : State P := { s with manager := s.manager.leave roomID id }
    obtain ⟨s', hrun, hclock', hmanager⟩ := @run_calls P ID s₁ r pre (c :: post) hclock
    refine hdeparted (List.replicate pre.length (.call r)) s' (.cons rfl hrun) ?_ (.call r)
      ⟨r, c, post, rfl, ?_, hclock', hid⟩
    · intro p hp
      cases List.eq_of_mem_replicate hp
    · rw [hmanager, Manager.name_leave, hname]
  · intro hquiet as' s' hrun hjoin a
    obtain ⟨s₁, hleave, hrest⟩ := run_cons_iff.mp hrun
    have hgone : Inv ID s' ∧ Gone ID roomID id s' := by
      have hP : Along (step ID) (fun _ a => ∀ p, a = .join roomID p → ID p ≠ id) s₁ as' := by
        rintro as₁ _ as₂ s₂ rfl _ p rfl
        exact hjoin p (by simp)
      apply hrest.invariant_of_along _ hP
      · exact ⟨hinv.kept hleave, hinv.gone_leave hquiet hleave⟩
      · intro s₂ a s₃ hs hjoin h
        exact ⟨hs.1.kept h, hs.2.kept hs.1 hjoin h⟩
    exact hgone.2.not_callsOn

end Invariants

/-- `a` and `b` join room `r`, whose clock ticks once. -/
def together : List (Action String) :=
  [.join "r" "a", .join "r" "b", .tick 0 ["a", "b"], .call 0, .call 0, .call 0, .call 0]

/-- Between two ticks `a` can leave. -/
theorem departed_iff_together : ∃ s, Run (step id) (start 16 960) together s ∧
    (Departed id s "r" "a" ↔ ¬Outstanding id s "r" "a") := by
  obtain ⟨s, hs⟩ := Option.isSome_iff_exists.mp
    (by decide : (exec (step id) (start 16 960) together).isSome = true)
  exact ⟨s, .of_exec hs, departed_iff (.of_exec hs) "r" "a"⟩

/-- **A tick under way still calls**: `a` leaves after its frame was read, and is
submitted a mix. -/
theorem not_departed_midTick : ∃ s,
    Run (step id) (start 16 960) (together.take 4) s ∧ ¬Departed id s "r" "a" := by
  obtain ⟨s, hs, hclock⟩ := (Option.any_eq_true _ _).mp
    (by decide : (exec (step id) (start 16 960) (together.take 4)).any (fun s =>
      (exec (step id) s [.leave "r" "a", .call 0]).any fun s' =>
        s'.manager.name 0 = some "r" ∧
          s'.clock 0 = some [.submitMix "a", .submitMix "b"]) = true)
  obtain ⟨s', hs', hcall⟩ := (Option.any_eq_true _ _).mp hclock
  obtain ⟨hname, hclock⟩ := of_decide_eq_true hcall
  refine ⟨s, .of_exec hs, fun h => ?_⟩
  refine h [.call 0] s' (.of_exec hs') ?_ (.call 0) ⟨0, .submitMix "a", _, rfl, hname, hclock, rfl⟩
  intro p hp
  simp at hp

end AmbiRTC.MixClock
