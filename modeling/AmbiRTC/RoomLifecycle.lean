/-
AmbiRTC/RoomLifecycle.lean

The life of rooms over a whole run of the manager.  What the rooms should hold is
given by the list of operations alone: under each room name and id, the last
participant that joined and has not left since (`replay`).

Main result: after every list of operations the manager has just the rooms with
somebody in them, with just those members, each with one running mix clock; all
other room objects are empty and stopped; so there are as many running mix clocks
as rooms (`rooms_replay`).
-/
import AmbiRTC.Rooms
import Mathlib.Algebra.BigOperators.Group.List.Basic

namespace AmbiRTC

variable {P : Type} {ID : P → String}

/-! ### Mix clocks -/

/-- How many mix clocks of a room are running: `done` stops all of them. -/
def Room.running (r : Room P) : ℕ := if r.done then 0 else r.clocks

theorem Room.Live.running_eq {r : Room P} (h : r.Live) : r.running = 1 := by
  rw [running, h.done, h.clocks]
  rfl

namespace Manager

variable {m : Manager P} {roomID id : String} {p : P}

/-- The mix clocks running in the process. -/
def runningClocks (m : Manager P) : ℕ := (m.heap.map Room.running).sum

/-- `Rooms`: the number of live rooms. -/
def liveRooms (m : Manager P) : ℕ := m.rooms.keys.length

/-- One room object changes, and the sum with it. -/
theorem sum_running_modify {heap : List (Room P)} {r : ℕ} {rm : Room P} (f : Room P → Room P)
    (hget : heap[r]? = some rm) :
    ((heap.modify r f).map Room.running).sum + rm.running
      = (heap.map Room.running).sum + (f rm).running := by
  induction heap generalizing r with
  | nil => simp at hget
  | cons rm' heap ih =>
    cases r with
    | zero =>
      obtain rfl := Option.some.inj hget
      simp only [List.modify_zero_cons, List.map_cons, List.sum_cons]
      omega
    | succ r =>
      have := ih hget
      simp only [List.modify_succ_cons, List.map_cons, List.sum_cons]
      omega

/-- As many clocks run as there are rooms. -/
def Balanced (m : Manager P) : Prop := m.runningClocks = m.liveRooms

theorem Balanced.join (hm : Balanced m) (h : Valid m) (roomID : String) (p : P) :
    Balanced (m.join ID roomID p) := by
  unfold Balanced runningClocks liveRooms at hm ⊢
  unfold Manager.join
  rcases hr : m.rooms.lookup roomID with - | r
  · -- one more room, and the clock that `Add` starts for it
    have hnew : roomID ∉ m.rooms := AList.lookup_eq_none.mp hr
    simp only [List.map_append, List.map_cons, List.map_nil, List.sum_append, List.sum_singleton,
      (Room.live_add_new roomID m.channels m.frameSize p).running_eq, AList.keys_insert,
      List.length_cons, List.erase_of_not_mem hnew, hm]
  · obtain ⟨rm, hget, -, hlive⟩ := h.live roomID r hr
    have hsum := sum_running_modify (fun rm => rm.add ID p) hget
    rw [hlive.running_eq, (hlive.add p).running_eq] at hsum
    simp only
    omega

theorem Balanced.leave (hm : Balanced m) (h : Valid m) (roomID id : String) :
    Balanced (m.leave roomID id) := by
  unfold Balanced runningClocks liveRooms at hm ⊢
  unfold Manager.leave
  rcases hr : m.rooms.lookup roomID with - | r
  · exact hm
  obtain ⟨rm, hget, -, hlive⟩ := h.live roomID r hr
  have hsum := sum_running_modify (fun rm => rm.remove id) hget
  have hrunning : (rm.remove id).running = rm.running := rfl
  have hget' : (m.heap.modify r fun rm => rm.remove id)[r]? = some (rm.remove id) := by
    rw [getElem?_modify, if_pos rfl, hget]
    rfl
  simp only [hget', Option.map_some, Option.some.injEq]
  split
  · -- the room is closed, and its entry goes with its clock
    have hclose := sum_running_modify Room.close hget'
    have hclosed : (rm.remove id).close.running = 0 := rfl
    have hmem : roomID ∈ m.rooms.keys :=
      AList.mem_keys.mp (AList.lookup_isSome.mp (by rw [hr]; rfl))
    have hpos := List.length_pos_of_mem hmem
    rw [AList.keys_erase, List.length_erase_of_mem hmem]
    rw [hrunning, hlive.running_eq] at hclose hsum
    simp only
    omega
  · simp only
    omega

/-! ### Operations -/

/-- A call of the manager. -/
inductive Op (P : Type) where
  | join (roomID : String) (p : P)
  | leave (roomID id : String)

/-- The manager after a call. -/
def apply (ID : P → String) (m : Manager P) : Op P → Manager P
  | .join roomID p => m.join ID roomID p
  | .leave roomID id => m.leave roomID id

/-- Who should be where after one more call. -/
def record (ID : P → String) (roster : String → String → Option P) :
    Op P → String → String → Option P
  | .join roomID p => fun room id => if room = roomID ∧ id = ID p then some p else roster room id
  | .leave roomID id =>
    fun room id' => if room = roomID ∧ id' = id then none else roster room id'

/-- The participant under each room and id, by the calls alone. -/
def replay (ID : P → String) (ops : List (Op P)) : String → String → Option P :=
  ops.foldl (record ID) fun _ _ => none

/-- What holds of a manager whose calls add up to a roster. -/
structure Follows (m : Manager P) (roster : String → String → Option P) : Prop where
  valid : Valid m
  balanced : Balanced m
  member_eq : ∀ roomID id, m.member roomID id = roster roomID id

variable {roster : String → String → Option P}

theorem Follows.next (h : Follows m roster) (op : Op P) :
    Follows (apply ID m op) (record ID roster op) := by
  cases op with
  | join roomID p =>
    refine ⟨h.valid.join roomID p, h.balanced.join h.valid roomID p, fun room id => ?_⟩
    rw [apply, h.valid.member_join, h.member_eq]
    rfl
  | leave roomID id =>
    refine ⟨h.valid.leave roomID id, h.balanced.leave h.valid roomID id, fun room id' => ?_⟩
    rw [apply, h.valid.member_leave, h.member_eq]
    rfl

theorem Follows.run (h : Follows m roster) (ID : P → String) (ops : List (Op P)) :
    Follows (ops.foldl (apply ID) m) (ops.foldl (record ID) roster) := by
  induction ops generalizing m roster with
  | nil => exact h
  | cons op ops ih => exact ih (h.next op)

theorem follows_new (channels frameSize : ℕ) :
    Follows (newManager channels frameSize : Manager P) fun _ _ => none :=
  ⟨valid_new channels frameSize, rfl, fun _ _ => rfl⟩

/-- A room is there just if somebody is in it. -/
theorem Follows.mem_rooms_iff (h : Follows m roster) :
    roomID ∈ m.rooms ↔ ∃ id p, roster roomID id = some p := by
  simp only [← h.member_eq]
  constructor
  · intro hmem
    obtain ⟨r, hr⟩ := Option.isSome_iff_exists.mp (AList.lookup_isSome.mpr hmem)
    exact h.valid.exists_member hr
  · rintro ⟨id, p, hp⟩
    refine AList.lookup_isSome.mp ?_
    rw [member, Manager.room] at hp
    cases hr : m.rooms.lookup roomID with
    | none =>
      rw [hr] at hp
      cases hp
    | some r => rfl

/-- **The life of rooms.**  After every list of joins and leaves, a room is in
the manager just if it has somebody in it; its members are the last that joined
under each id; it has one mix clock, started once and not stopped; every other
room object is empty and stopped; and as many mix clocks run as there are
rooms. -/
theorem rooms_replay (ID : P → String) (channels frameSize : ℕ) (ops : List (Op P)) :
    let m := ops.foldl (apply ID) (newManager channels frameSize)
    (∀ roomID, roomID ∈ m.rooms ↔ ∃ id p, replay ID ops roomID id = some p) ∧
      (∀ roomID id, m.member roomID id = replay ID ops roomID id) ∧
      (∀ roomID rm, m.room roomID = some rm → rm.Live) ∧
      (∀ r rm, m.heap[r]? = some rm → (∀ roomID, m.rooms.lookup roomID ≠ some r) → rm.Stopped) ∧
      m.runningClocks = m.liveRooms := by
  have h := (follows_new channels frameSize).run ID ops
  refine ⟨fun roomID => h.mem_rooms_iff, h.member_eq, fun roomID rm hroom => ?_,
    h.valid.stopped, h.balanced⟩
  obtain ⟨r, hr, hget⟩ := Option.bind_eq_some_iff.mp hroom
  obtain ⟨rm', hget', -, hlive⟩ := h.valid.live roomID r hr
  obtain rfl := Option.some.inj (hget.symm.trans hget')
  exact hlive

/-- A room is left by all and joined again: two objects, one of them running. -/
example : let m := [Op.join "r1" "a", .join "r1" "b", .leave "r1" "a", .leave "r1" "b",
      .leave "r2" "a", .join "r1" "a"].foldl (apply fun p => p) (newManager 16 480)
    m.heap.map (fun rm => (rm.size, rm.clocks, rm.done)) = [(0, 1, true), (1, 1, false)] := by
  decide

end Manager

end AmbiRTC
