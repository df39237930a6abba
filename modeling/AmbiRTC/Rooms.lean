/-
AmbiRTC/Rooms.lean

Rooms and their manager (mcu/internal/room/room.go, manager.go).  A room object
outlives its entry in the manager as long as somebody holds it (its mix clock
does), so the manager keeps a heap of every room object made and a map from
names to live ones.  `Join` and `Leave` hold the manager's lock throughout, and
are one step each.

For the outside a manager is a map from room and participant id to the
participant (`Manager.member`).

Main results: `Join` and `Leave` act on that map as their names say
(`member_join`, `member_leave`) and keep live rooms occupied with one running
mix clock, and dropped ones empty with theirs stopped (`Valid.join`,
`Valid.leave`).
-/
import Mathlib.Data.List.AList
import Mathlib.Tactic.Linarith

namespace AmbiRTC

variable {P : Type} {ID : P → String}

/-! ### Rooms -/

/-- `Room`. -/
structure Room (P : Type) where
  id : String
  channels : ℕ
  frameSize : ℕ
  members : AList fun _ : String => P
  clockOn : Bool
  /-- whether the channel `done` is closed, which ends the mix clock -/
  done : Bool
  /-- how often `go r.mixClock()` was reached -/
  clocks : ℕ

/-- `NewRoom`. -/
def newRoom (id : String) (channels frameSize : ℕ) : Room P where
  id := id
  channels := channels
  frameSize := frameSize
  members := ∅
  clockOn := false
  done := false
  clocks := 0

namespace Room

/-- `Add`: register a participant, and start the mix clock if it is not on. -/
def add (ID : P → String) (r : Room P) (p : P) : Room P :=
  { r with
    members := r.members.insert (ID p) p
    clockOn := true
    clocks := if !r.clockOn then r.clocks + 1 else r.clocks }

/-- `Remove`. -/
def remove (r : Room P) (id : String) : Room P := { r with members := r.members.erase id }

/-- `Size`. -/
def size (r : Room P) : ℕ := r.members.entries.length

/-- `Close`: stop the mix clock. -/
def close (r : Room P) : Room P := { r with done := true }

/-- A room that is mixing for somebody. -/
structure Live (r : Room P) : Prop where
  occupied : r.size ≠ 0
  clockOn : r.clockOn = true
  clocks : r.clocks = 1
  done : r.done = false

/-- A room that has been torn down. -/
structure Stopped (r : Room P) : Prop where
  empty : r.size = 0
  done : r.done = true

theorem size_ne_zero_iff {r : Room P} : r.size ≠ 0 ↔ ∃ id p, r.members.lookup id = some p := by
  constructor
  · intro h
    obtain ⟨⟨id, p⟩, entries, he⟩ := List.exists_cons_of_length_pos (Nat.pos_of_ne_zero h)
    refine ⟨id, p, AList.mem_lookup_iff.mpr ?_⟩
    rw [he]
    exact List.mem_cons_self
  · rintro ⟨id, p, h⟩ h0
    have hmem := AList.mem_lookup_iff.mp (Option.mem_def.mpr h)
    rw [List.length_eq_zero_iff.mp h0] at hmem
    cases hmem

theorem live_add_new (id : String) (channels frameSize : ℕ) (p : P) :
    Live ((newRoom id channels frameSize).add ID p) :=
  ⟨size_ne_zero_iff.mpr ⟨ID p, p, AList.lookup_insert _⟩, rfl, rfl, rfl⟩

theorem Live.add {r : Room P} (h : Live r) (p : P) : Live (r.add ID p) :=
  ⟨size_ne_zero_iff.mpr ⟨ID p, p, AList.lookup_insert _⟩, rfl,
    by simp [Room.add, h.clockOn, h.clocks], h.done⟩

end Room

/-! ### The manager -/

/-- `Manager`, with the heap its rooms live in. -/
structure Manager (P : Type) where
  heap : List (Room P)
  rooms : AList fun _ : String => ℕ
  channels : ℕ
  frameSize : ℕ

/-- `NewManager`. -/
def newManager (channels frameSize : ℕ) : Manager P where
  heap := []
  rooms := ∅
  channels := channels
  frameSize := frameSize

namespace Manager

/-- `Join`. -/
def join (ID : P → String) (m : Manager P) (roomID : String) (p : P) : Manager P :=
  match m.rooms.lookup roomID with
  | none =>
    { m with
      heap := m.heap ++ [(newRoom roomID m.channels m.frameSize).add ID p]
      rooms := m.rooms.insert roomID m.heap.length }
  | some r => { m with heap := m.heap.modify r fun rm => rm.add ID p }

/-- `Leave`. -/
def leave (m : Manager P) (roomID id : String) : Manager P :=
  match m.rooms.lookup roomID with
  | none => m
  | some r =>
    let heap := m.heap.modify r fun rm => rm.remove id
    if heap[r]?.map Room.size = some 0 then
      { m with
        heap := heap.modify r Room.close
        rooms := m.rooms.erase roomID }
    else { m with heap := heap }

/-- The live room of a name. -/
def room (m : Manager P) (roomID : String) : Option (Room P) :=
  (m.rooms.lookup roomID).bind fun r => m.heap[r]?

/-- The participant an id stands for in a room. -/
def member (m : Manager P) (roomID id : String) : Option P :=
  (m.room roomID).bind fun rm => rm.members.lookup id

/-- Every entry is a live room of its own, every other object has been stopped. -/
structure Valid (m : Manager P) : Prop where
  live : ∀ roomID r, m.rooms.lookup roomID = some r →
    ∃ rm, m.heap[r]? = some rm ∧ rm.id = roomID ∧ rm.Live
  stopped : ∀ r rm, m.heap[r]? = some rm → (∀ roomID, m.rooms.lookup roomID ≠ some r) →
    rm.Stopped

variable {m : Manager P} {roomID : String}

theorem valid_new (channels frameSize : ℕ) : Valid (newManager channels frameSize : Manager P) :=
  ⟨fun _ _ h => by simp [newManager] at h, fun _ _ h => by simp [newManager] at h⟩

/-- Two names never share an object. -/
theorem Valid.name_unique (h : Valid m) {roomID' : String} {r : ℕ}
    (hr : m.rooms.lookup roomID = some r) (hr' : m.rooms.lookup roomID' = some r) :
    roomID = roomID' := by
  obtain ⟨rm, hget, hid, -⟩ := h.live roomID r hr
  obtain ⟨rm', hget', hid', -⟩ := h.live roomID' r hr'
  obtain rfl := Option.some.inj (hget.symm.trans hget')
  exact hid.symm.trans hid'

/-- A live room has a member. -/
theorem Valid.exists_member (h : Valid m) {r : ℕ} (hr : m.rooms.lookup roomID = some r) :
    ∃ id p, m.member roomID id = some p := by
  obtain ⟨rm, hget, -, hlive⟩ := h.live roomID r hr
  obtain ⟨id, p, hp⟩ := Room.size_ne_zero_iff.mp hlive.occupied
  refine ⟨id, p, ?_⟩
  rw [member, room, hr, Option.bind_some, hget, Option.bind_some]
  exact hp

theorem getElem?_modify (heap : List (Room P)) (f : Room P → Room P) (i r : ℕ) :
    (heap.modify i f)[r]? = if i = r then heap[r]?.map f else heap[r]? := by
  rw [List.getElem?_modify]
  split <;> rcases heap[r]? with - | rm <;> rfl

/-! ### Join -/

theorem Valid.member_join (h : Valid m) (roomID : String) (p : P) (room' id : String) :
    (m.join ID roomID p).member room' id
      = if room' = roomID ∧ id = ID p then some p else m.member room' id := by
  unfold join member room
  by_cases hroom : room' = roomID
  · subst hroom
    rcases hr : m.rooms.lookup room' with - | r
    · -- a new room, whose only member is `p`
      simp only [AList.lookup_insert, Option.bind_some, List.getElem?_concat_length,
        Option.bind_none, true_and]
      by_cases hid : id = ID p
      · subst hid
        simp [Room.add]
      · rw [if_neg hid]
        exact (AList.lookup_insert_ne hid).trans (AList.lookup_empty id)
    · obtain ⟨rm, hget, -, -⟩ := h.live room' r hr
      simp only [hr, Option.bind_some, getElem?_modify, if_true, hget, Option.map_some, true_and]
      by_cases hid : id = ID p
      · subst hid
        simp [Room.add]
      · simp [Room.add, hid, AList.lookup_insert_ne hid]
  · rw [if_neg (fun hboth => hroom hboth.1)]
    rcases hr : m.rooms.lookup roomID with - | r
    · simp only [AList.lookup_insert_ne hroom]
      rcases hr' : m.rooms.lookup room' with - | r'
      · rfl
      · obtain ⟨rm, hget, -, -⟩ := h.live room' r' hr'
        have hlt : r' < m.heap.length := (List.getElem?_eq_some_iff.mp hget).1
        simp [List.getElem?_append_left hlt]
    · rcases hr' : m.rooms.lookup room' with - | r'
      · simp
      · -- the object changed is the one of `roomID`, not this one
        have hne : r ≠ r' := by
          rintro rfl
          exact hroom (h.name_unique hr' hr)
        simp [getElem?_modify, hne]

theorem Valid.join (h : Valid m) (roomID : String) (p : P) : Valid (m.join ID roomID p) := by
  unfold Manager.join
  rcases hr : m.rooms.lookup roomID with - | r
  · constructor
    · intro room' r' hr'
      simp only at hr' ⊢
      by_cases hroom : room' = roomID
      · subst hroom
        rw [AList.lookup_insert] at hr'
        obtain rfl := Option.some.inj hr'
        exact ⟨_, List.getElem?_concat_length, rfl, Room.live_add_new _ _ _ p⟩
      · rw [AList.lookup_insert_ne hroom] at hr'
        obtain ⟨rm, hget, hid, hlive⟩ := h.live room' r' hr'
        have hlt : r' < m.heap.length := (List.getElem?_eq_some_iff.mp hget).1
        exact ⟨rm, by rw [List.getElem?_append_left hlt, hget], hid, hlive⟩
    · intro r' rm hget hno
      simp only at hget hno
      -- the object just made has an entry, so this is an older one
      have hlt : r' < m.heap.length := by
        have hlt' := (List.getElem?_eq_some_iff.mp hget).1
        rw [List.length_append, List.length_singleton] at hlt'
        rcases Nat.lt_or_ge r' m.heap.length with hlt | hge
        · exact hlt
        · obtain rfl : r' = m.heap.length := by omega
          exact absurd (AList.lookup_insert _) (hno roomID)
      rw [List.getElem?_append_left hlt] at hget
      refine h.stopped r' rm hget fun room' hr' => hno room' ?_
      have hne : room' ≠ roomID := by
        rintro rfl
        rw [hr] at hr'
        cases hr'
      rw [AList.lookup_insert_ne hne, hr']
  · constructor
    · intro room' r' hr'
      obtain ⟨rm, hget, hid, hlive⟩ := h.live room' r' hr'
      simp only [getElem?_modify, hget, Option.map_some]
      split
      · exact ⟨_, rfl, hid, hlive.add p⟩
      · exact ⟨_, rfl, hid, hlive⟩
    · intro r' rm hget hno
      have hne : r ≠ r' := by
        rintro rfl
        exact hno roomID hr
      simp only [getElem?_modify, if_neg hne] at hget
      exact h.stopped r' rm hget hno

/-! ### Leave -/

theorem Valid.member_leave (h : Valid m) (roomID id room' id' : String) :
    (m.leave roomID id).member room' id'
      = if room' = roomID ∧ id' = id then none else m.member room' id' := by
  unfold leave member room
  rcases hr : m.rooms.lookup roomID with - | r
  · -- no such room, nothing to forget
    by_cases hboth : room' = roomID ∧ id' = id
    · rw [if_pos hboth, hboth.1]
      simp [hr]
    · rw [if_neg hboth]
  obtain ⟨rm, hget, -, -⟩ := h.live roomID r hr
  simp only [getElem?_modify, if_true, hget, Option.map_some, Option.some.injEq]
  by_cases hroom : room' = roomID
  · subst hroom
    simp only [true_and, hr, Option.bind_some, hget]
    by_cases hempty : (rm.remove id).size = 0
    · -- the last member: the room is dropped, and its map is empty
      have hnone : (rm.remove id).members.lookup id' = none := by
        by_contra hsome
        obtain ⟨p, hp⟩ := Option.ne_none_iff_exists'.mp hsome
        exact Room.size_ne_zero_iff.mpr ⟨id', p, hp⟩ hempty
      rw [if_pos hempty, AList.lookup_erase, Option.bind_none]
      by_cases hid : id' = id
      · rw [if_pos hid]
        rfl
      · rw [Room.remove, AList.lookup_erase_ne hid] at hnone
        rw [if_neg hid, hnone]
        rfl
    · rw [if_neg hempty]
      simp only [hr, Option.bind_some, getElem?_modify, if_true, hget, Option.map_some]
      by_cases hid : id' = id
      · subst hid
        simp [Room.remove]
      · rw [if_neg hid]
        exact AList.lookup_erase_ne hid
  · rw [if_neg (fun hboth : room' = roomID ∧ id' = id => hroom hboth.1)]
    -- both branches leave the entry and the object of `room'` alone
    have hheap : ∀ r', m.rooms.lookup room' = some r' → r ≠ r' := by
      rintro r' hr' rfl
      exact hroom (h.name_unique hr' hr)
    by_cases hempty : (rm.remove id).size = 0
    · rw [if_pos hempty]
      simp only [AList.lookup_erase_ne hroom]
      rcases hr' : m.rooms.lookup room' with - | r'
      · rfl
      · simp [getElem?_modify, hheap r' hr']
    · rw [if_neg hempty]
      rcases hr' : m.rooms.lookup room' with - | r'
      · simp
      · simp [getElem?_modify, hheap r' hr']

theorem Valid.leave (h : Valid m) (roomID id : String) : Valid (m.leave roomID id) := by
  unfold Manager.leave
  rcases hr : m.rooms.lookup roomID with - | r
  · exact h
  obtain ⟨rm, hget, hrmid, hlive⟩ := h.live roomID r hr
  simp only [getElem?_modify, if_true, hget, Option.map_some, Option.some.injEq]
  split
  case isTrue hempty =>
    constructor
    · intro room' r' hr'
      simp only at hr' ⊢
      by_cases hroom : room' = roomID
      · subst hroom
        rw [AList.lookup_erase] at hr'
        cases hr'
      · rw [AList.lookup_erase_ne hroom] at hr'
        obtain ⟨rm', hget', hid', hlive'⟩ := h.live room' r' hr'
        have hne : r ≠ r' := by
          rintro rfl
          exact hroom (h.name_unique hr' hr)
        exact ⟨rm', by simp [hne, hget'], hid', hlive'⟩
    · intro r' rm' hget' hno
      simp only [getElem?_modify] at hget' hno
      by_cases hrr : r = r'
      · -- the object that has lost its entry was closed on the way
        subst hrr
        simp only [if_true, hget, Option.map_some, Option.some.injEq] at hget'
        subst hget'
        exact ⟨hempty, rfl⟩
      · simp only [if_neg hrr] at hget'
        refine h.stopped r' rm' hget' fun room' hr' => hno room' ?_
        have hne : room' ≠ roomID := by
          rintro rfl
          rw [hr] at hr'
          exact hrr (Option.some.inj hr')
        rw [AList.lookup_erase_ne hne, hr']
  case isFalse hoccupied =>
    constructor
    · intro room' r' hr'
      obtain ⟨rm', hget', hid', hlive'⟩ := h.live room' r' hr'
      simp only [getElem?_modify, hget', Option.map_some]
      split
      case isTrue hrr =>
        -- somebody is left in the room, whose clock runs on
        subst hrr
        obtain rfl := Option.some.inj (hget.symm.trans hget')
        exact ⟨_, rfl, hid', hoccupied, hlive'.clockOn, hlive'.clocks, hlive'.done⟩
      case isFalse => exact ⟨_, rfl, hid', hlive'⟩
    · intro r' rm' hget' hno
      have hne : r ≠ r' := by
        rintro rfl
        exact hno roomID hr
      simp only [getElem?_modify, if_neg hne] at hget'
      exact h.stopped r' rm' hget' hno

/-! ### Room objects -/

/-- The name a room object was made under. -/
def name (m : Manager P) (r : ℕ) : Option String := m.heap[r]?.map Room.id

theorem name_join {p : P} {r : ℕ} (hr : m.name r ≠ none) :
    (m.join ID roomID p).name r = m.name r := by
  unfold name at hr ⊢
  unfold Manager.join
  split
  · rcases hget : m.heap[r]? with - | rm
    · rw [hget] at hr
      exact absurd rfl hr
    · rw [List.getElem?_append_left (List.getElem?_eq_some_iff.mp hget).1, hget]
  · simp only [getElem?_modify]
    split <;> cases m.heap[r]? <;> rfl

theorem name_leave {id : String} {r : ℕ} : (m.leave roomID id).name r = m.name r := by
  unfold name leave
  split
  · rfl
  · simp only
    split <;> simp only [getElem?_modify] <;> split <;> cases m.heap[r]? <;> rfl

/-- Every room has its members under their own ids. -/
def Keyed (ID : P → String) (m : Manager P) : Prop :=
  ∀ (r : ℕ) rm id p, m.heap[r]? = some rm → rm.members.lookup id = some p → ID p = id

theorem keyed_new (channels frameSize : ℕ) : Keyed ID (newManager channels frameSize) :=
  fun _ _ _ _ h => by simp [newManager] at h

theorem lookup_add {rm : Room P} {p q : P} {id : String}
    (h : (rm.add ID p).members.lookup id = some q) : ID q = id ∨ rm.members.lookup id = some q := by
  by_cases hid : id = ID p
  · subst hid
    rw [Room.add, AList.lookup_insert] at h
    obtain rfl := Option.some.inj h
    exact Or.inl rfl
  · rw [Room.add, AList.lookup_insert_ne hid] at h
    exact Or.inr h

theorem Keyed.join (h : Keyed ID m) (roomID : String) (p : P) :
    Keyed ID (m.join ID roomID p) := by
  intro r rm' id q hget hq
  unfold Manager.join at hget
  split at hget
  · rcases Nat.lt_or_ge r m.heap.length with hlt | hge
    · rw [List.getElem?_append_left hlt] at hget
      exact h r rm' id q hget hq
    · rw [List.getElem?_append_right hge, List.getElem?_singleton] at hget
      obtain ⟨-, heq⟩ := Option.ite_none_right_eq_some.mp hget
      obtain rfl := Option.some.inj heq
      rcases lookup_add hq with hid | hold
      · exact hid
      · rw [newRoom, AList.lookup_empty] at hold
        cases hold
  · simp only [getElem?_modify] at hget
    split at hget
    · obtain ⟨rm, hrm, rfl⟩ := Option.map_eq_some_iff.mp hget
      exact (lookup_add hq).elim (fun hid => hid) (h r rm id q hrm)
    · exact h r rm' id q hget hq

theorem Keyed.leave (h : Keyed ID m) (roomID id : String) : Keyed ID (m.leave roomID id) := by
  have hremove : ∀ (r : ℕ) rm id' p, m.heap[r]? = some rm →
      (rm.remove id).members.lookup id' = some p → ID p = id' := by
    intro r rm id' p hget hp
    by_cases hid : id' = id
    · subst hid
      rw [Room.remove, AList.lookup_erase] at hp
      cases hp
    · rw [Room.remove, AList.lookup_erase_ne hid] at hp
      exact h r rm id' p hget hp
  intro r rm' id' p hget hp
  unfold Manager.leave at hget
  split at hget
  · exact h r rm' id' p hget hp
  simp only at hget
  split at hget
  · simp only [getElem?_modify] at hget
    split at hget
    · obtain ⟨rm', hrm', rfl⟩ := Option.map_eq_some_iff.mp hget
      obtain ⟨rm, hrm, rfl⟩ := Option.map_eq_some_iff.mp hrm'
      exact hremove r rm id' p hrm hp
    · exact h r rm' id' p hget hp
  · simp only [getElem?_modify] at hget
    split at hget
    · obtain ⟨rm, hrm, rfl⟩ := Option.map_eq_some_iff.mp hget
      exact hremove r rm id' p hrm hp
    · exact h r rm' id' p hget hp

/-- Whoever is in an object of a name is a member of that room. -/
theorem Valid.member_of_lookup (h : Valid m) {r : ℕ} {rm : Room P} {id : String} {p : P}
    (hget : m.heap[r]? = some rm) (hp : rm.members.lookup id = some p) :
    m.member rm.id id = some p := by
  by_cases hentry : ∃ room, m.rooms.lookup room = some r
  · obtain ⟨room, hr⟩ := hentry
    obtain ⟨rm', hget', hid, -⟩ := h.live room r hr
    obtain rfl := Option.some.inj (hget.symm.trans hget')
    rw [member, Manager.room, hid, hr, Option.bind_some, hget, Option.bind_some, hp]
  · -- an object without an entry is empty
    have hempty := (h.stopped r rm hget fun room hr => hentry ⟨room, hr⟩).empty
    exact absurd hempty (Room.size_ne_zero_iff.mpr ⟨id, p, hp⟩)

end Manager

end AmbiRTC
