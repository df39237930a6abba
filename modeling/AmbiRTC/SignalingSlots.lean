/-
AmbiRTC/SignalingSlots.lean

The signaling server seen from its slots.  A slot is a role in a room of a
family; `stored` is who is in it, and a socket's three fields name one
(`Socket.slot`).

Main results: each event leaves everybody where they are, puts one socket into a
slot no OPEN socket holds, or empties the slot a closing socket names
(`handleMessage_cases`, `handleClose_stored`, `step_cases`).
-/
import AmbiRTC.Signaling

namespace AmbiRTC.Signaling

/-! ### Slots -/

/-- A role in a room. -/
@[ext] structure Slot where
  roomType : RoomType
  room : Value
  role : Role
  deriving DecidableEq

/-- The slot across the room. -/
def Slot.opposite (slot : Slot) : Slot := { slot with role := getOppositeRole slot.role }

/-- The slot that a socket's `roomType`, `room` and `role` name. -/
def Socket.slot (sock : Socket) : Option Slot :=
  match sock.roomType, sock.room, sock.role with
  | some roomType, some room, some role => some ⟨roomType, room, role⟩
  | _, _, _ => none

/-- Fill in the three fields. -/
def Socket.name (sock : Socket) (slot : Slot) : Socket :=
  { sock with room := some slot.room, role := some slot.role, roomType := some slot.roomType }

@[simp] theorem Socket.slot_name (sock : Socket) (slot : Slot) :
    (sock.name slot).slot = some slot := rfl

@[simp] theorem Socket.readyState_name (sock : Socket) (slot : Slot) :
    (sock.name slot).readyState = sock.readyState := rfl

/-- A socket names a slot just if its three fields say so. -/
theorem Socket.slot_eq_some {sock : Socket} {slot : Slot} : sock.slot = some slot ↔
    sock.roomType = some slot.roomType ∧ sock.room = some slot.room ∧
      sock.role = some slot.role := by
  obtain ⟨_, room, role, roomType, _⟩ := sock
  cases roomType <;> cases room <;> cases role <;> simp [Socket.slot, Slot.ext_iff]

theorem getOppositeRole_ne (role : Role) : getOppositeRole role ≠ role := by
  cases role <;> decide

namespace Server

variable {s s' : Server}

/-- Who is in a slot. -/
def stored (s : Server) (slot : Slot) : Option ℕ :=
  (s.rooms slot.roomType slot.room).bind fun slots => slots slot.role

/-- An OPEN socket is in the slot. -/
def taken (s : Server) (slot : Slot) : Bool := (s.stored slot).any s.isOpen

theorem rooms_setRoom (t t' : RoomType) (room room' : Value) (slots : Slots) :
    (s.setRoom t room slots).rooms t' room'
      = if t' = t ∧ room' = room then some slots else s.rooms t' room' := by
  unfold setRoom
  by_cases ht : t' = t
  · subst ht
    by_cases hroom : room' = room
    · subst hroom
      simp
    · simp [hroom]
  · simp [ht]

theorem rooms_deleteRoom (t t' : RoomType) (room room' : Value) :
    (s.deleteRoom t room).rooms t' room'
      = if t' = t ∧ room' = room then none else s.rooms t' room' := by
  unfold deleteRoom
  by_cases ht : t' = t
  · subst ht
    by_cases hroom : room' = room
    · subst hroom
      simp
    · simp [hroom]
  · simp [ht]

theorem stored_setRoom (t : RoomType) (room : Value) (slots : Slots) (slot : Slot) :
    (s.setRoom t room slots).stored slot
      = if slot.roomType = t ∧ slot.room = room then slots slot.role else s.stored slot := by
  unfold stored
  rw [rooms_setRoom]
  split <;> rfl

theorem stored_deleteRoom (t : RoomType) (room : Value) (slot : Slot) :
    (s.deleteRoom t room).stored slot
      = if slot.roomType = t ∧ slot.room = room then none else s.stored slot := by
  unfold stored
  rw [rooms_deleteRoom]
  split <;> rfl

@[simp] theorem stored_modifySocket (ws : ℕ) (f : Socket → Socket) (slot : Slot) :
    (s.modifySocket ws f).stored slot = s.stored slot := rfl

@[simp] theorem sockets_setRoom (t : RoomType) (room : Value) (slots : Slots) :
    (s.setRoom t room slots).sockets = s.sockets := rfl

@[simp] theorem sockets_deleteRoom (t : RoomType) (room : Value) :
    (s.deleteRoom t room).sockets = s.sockets := rfl

@[simp] theorem sockets_ensureRoom (t : RoomType) (room : Value) :
    (s.ensureRoom t room).sockets = s.sockets := by
  unfold ensureRoom
  split <;> rfl

/-- An empty room has nobody in its slots. -/
@[simp] theorem stored_ensureRoom (t : RoomType) (room : Value) (slot : Slot) :
    (s.ensureRoom t room).stored slot = s.stored slot := by
  unfold ensureRoom
  split
  · rename_i hnone
    rw [stored_setRoom]
    split
    · rename_i hslot
      rw [stored, hslot.1, hslot.2, Option.isNone_iff_eq_none.mp hnone]
      rfl
    · rfl
  · rfl

theorem isOpen_congr (h : s'.sockets = s.sockets) : s'.isOpen = s.isOpen := by
  funext ws
  rw [isOpen, isOpen, h]

/-- A slot read off the room object. -/
theorem occupied_getD (slot : Slot) :
    s.occupied ((s.rooms slot.roomType slot.room).getD noSlots) slot.role = s.taken slot := by
  unfold occupied taken stored
  cases s.rooms slot.roomType slot.room <;> rfl

theorem taken_ensureRoom (t : RoomType) (room : Value) (slot : Slot) :
    (s.ensureRoom t room).taken slot = s.taken slot := by
  rw [taken, taken, stored_ensureRoom, isOpen_congr (sockets_ensureRoom t room)]

theorem stored_register (ws : ℕ) (slot slot' : Slot) :
    (s.register ws slot.roomType slot.room slot.role).stored slot'
      = if slot' = slot then some ws else s.stored slot' := by
  unfold register
  rw [stored_modifySocket, stored_setRoom]
  by_cases hroom : slot'.roomType = slot.roomType ∧ slot'.room = slot.room
  · rw [if_pos hroom]
    by_cases hrole : slot'.role = slot.role
    · rw [if_pos (Slot.ext hroom.1 hroom.2 hrole), hrole, Function.update_self]
    · have hne : slot' ≠ slot := by
        rintro rfl
        exact hrole rfl
      rw [Function.update_of_ne hrole, if_neg hne, stored, hroom.1, hroom.2]
      cases s.rooms slot.roomType slot.room <;> rfl
  · rw [if_neg hroom, if_neg]
    rintro rfl
    exact hroom ⟨rfl, rfl⟩

theorem sockets_register (ws : ℕ) (slot : Slot) :
    (s.register ws slot.roomType slot.room slot.role).sockets
      = Function.update s.sockets ws ((s.sockets ws).map fun sock => sock.name slot) := rfl

/-! ### What a message does -/

/-- A `send` with a client's value in it. -/
theorem sendValue_eq_ok {ws : ℕ} {hasJson : Bool} {reply : Reply} {out : List (ℕ × Reply)} :
    s.sendValue ws hasJson reply = .ok out
      ↔ (s.isOpen ws = true → hasJson = true) ∧ out = s.send ws reply := by
  unfold sendValue
  cases s.isOpen ws <;> cases hasJson <;> simp [eq_comm]

/-- What comes after one. -/
theorem sendValue_bind_eq_ok {β : Type} {ws : ℕ} {hasJson : Bool} {reply : Reply}
    {f : List (ℕ × Reply) → Except Throw β} {r : β} :
    (s.sendValue ws hasJson reply >>= f) = .ok r
      ↔ (s.isOpen ws = true → hasJson = true) ∧ f (s.send ws reply) = .ok r := by
  unfold sendValue
  cases s.isOpen ws <;> cases hasJson <;> simp [bind, Except.bind]

/-- A relay leaves the server as it is. -/
theorem map_eq_ok {x : Except Throw (List (ℕ × Reply))} {out : List (ℕ × Reply)} :
    (x.map fun out => (s, out)) = .ok (s', out) ↔ x = .ok out ∧ s' = s := by
  cases x with
  | error e => simp [Except.map]
  | ok out' => simp [Except.map, and_comm, eq_comm]

/-- Nobody moves. -/
structure Unmoved (s s' : Server) : Prop where
  sockets_eq : s'.sockets = s.sockets
  stored_eq : ∀ slot, s'.stored slot = s.stored slot

theorem Unmoved.refl (s : Server) : Unmoved s s := ⟨rfl, fun _ => rfl⟩

/-- `ws` is put into a slot no OPEN socket holds. -/
structure Joined (s s' : Server) (ws : ℕ) (slot : Slot) : Prop where
  free : s.taken slot = false
  sockets_eq : s'.sockets
    = Function.update s.sockets ws ((s.sockets ws).map fun sock => sock.name slot)
  stored_eq : ∀ slot', s'.stored slot' = if slot' = slot then some ws else s.stored slot'

/-- The slot a message is given: the one a `join` asks for, or the first free of
the room a `join_node` names. -/
def claimed (s : Server) : Parsed → Option Slot
  | .message msg =>
    match msg.type with
    | .string "join" =>
      (joinRole msg.role).bind fun role =>
        if msg.room.truthy ∧ !s.taken ⟨.mono, msg.room, role⟩ then
          some ⟨.mono, msg.room, role⟩
        else none
    | .string "join_node" =>
      if !msg.room.truthy then none
      else if !s.taken ⟨.bidirectional, msg.room, .offerer⟩ then
        some ⟨.bidirectional, msg.room, .offerer⟩
      else if !s.taken ⟨.bidirectional, msg.room, .answerer⟩ then
        some ⟨.bidirectional, msg.room, .answerer⟩
      else none
    | _ => none
  | _ => none

theorem joined_register {ws : ℕ} {slot : Slot} (hfree : s.taken slot = false) :
    Joined s ((s.ensureRoom slot.roomType slot.room).register ws slot.roomType slot.room slot.role)
      ws slot where
  free := hfree
  sockets_eq := by rw [sockets_register, sockets_ensureRoom]
  stored_eq slot' := by rw [stored_register, stored_ensureRoom]

theorem unmoved_ensureRoom (t : RoomType) (room : Value) : Unmoved s (s.ensureRoom t room) :=
  ⟨sockets_ensureRoom t room, stored_ensureRoom t room⟩

/-- A slot of the room that was looked up, or just made. -/
theorem occupied_ensureRoom (slot : Slot) :
    (s.ensureRoom slot.roomType slot.room).occupied
        (((s.ensureRoom slot.roomType slot.room).rooms slot.roomType slot.room).getD noSlots)
        slot.role = s.taken slot := by
  rw [occupied_getD, taken_ensureRoom]

theorem join_cases {ws now : ℕ} {msg : Message} {out : List (ℕ × Reply)}
    (htype : msg.type = .string "join") (h : s.join ws now msg = .ok (s', out)) :
    (s.claimed (.message msg) = none ∧ Unmoved s s') ∨
      ∃ slot, s.claimed (.message msg) = some slot ∧ Joined s s' ws slot := by
  simp only [claimed, htype]
  unfold join at h
  rcases hrole : joinRole msg.role with - | role
  · simp only [hrole] at h ⊢
    obtain ⟨rfl, -⟩ := Prod.mk.inj (Except.ok.inj h)
    exact Or.inl ⟨rfl, .refl s⟩
  have hocc := @occupied_ensureRoom s ⟨.mono, msg.room, role⟩
  simp only at hocc
  simp only [hrole, Option.bind_some, hocc] at h ⊢
  split at h
  case isTrue hfalsy =>
    obtain ⟨rfl, -⟩ := Prod.mk.inj (Except.ok.inj h)
    exact Or.inl ⟨if_neg (by simp_all), .refl s⟩
  case isFalse htruthy =>
    split at h
    case isTrue htaken =>
      -- the room is occupied: all that is left is a suggestion
      split at h
      · cases h
      · obtain ⟨rfl, -⟩ := Prod.mk.inj (Except.ok.inj h)
        exact Or.inl ⟨if_neg (by simp [htaken]), unmoved_ensureRoom _ _⟩
    case isFalse hfree =>
      obtain ⟨-, h⟩ := sendValue_bind_eq_ok.mp h
      split at h
      · cases h
      · obtain ⟨rfl, -⟩ := Prod.mk.inj (Except.ok.inj h)
        exact Or.inr ⟨_, if_pos (by simp_all), joined_register (Bool.eq_false_iff.mpr hfree)⟩

theorem joinNode_cases {ws now : ℕ} {msg : Message} {out : List (ℕ × Reply)}
    (htype : msg.type = .string "join_node") (h : s.joinNode ws now msg = .ok (s', out)) :
    (s.claimed (.message msg) = none ∧ Unmoved s s') ∨
      ∃ slot, s.claimed (.message msg) = some slot ∧ Joined s s' ws slot := by
  simp only [claimed, htype]
  unfold joinNode at h
  split at h
  case isTrue hfalsy =>
    obtain ⟨rfl, -⟩ := Prod.mk.inj (Except.ok.inj h)
    exact Or.inl ⟨if_pos hfalsy, .refl s⟩
  case isFalse htruthy =>
    rw [if_neg htruthy]
    have hoff := @occupied_ensureRoom s ⟨.bidirectional, msg.room, .offerer⟩
    have hans := @occupied_ensureRoom s ⟨.bidirectional, msg.room, .answerer⟩
    simp only [nodeRole] at hoff hans h
    rw [hoff, hans] at h
    have hjoin : ∀ role, s.taken ⟨.bidirectional, msg.room, role⟩ = false →
        Joined s ((s.ensureRoom .bidirectional msg.room).register ws .bidirectional msg.room role)
          ws ⟨.bidirectional, msg.room, role⟩ :=
      fun role hfree => joined_register hfree
    -- the offerer's place first, then the answerer's; an open holder keeps the newcomer out
    by_cases hoffTaken : s.taken ⟨.bidirectional, msg.room, .offerer⟩ = true
    · by_cases hansTaken : s.taken ⟨.bidirectional, msg.room, .answerer⟩ = true
      -- full: an error is sent, and nothing is registered
      · simp only [hoffTaken, hansTaken, Bool.not_true, Bool.false_eq_true, if_false] at h ⊢
        split at h
        · cases h
        · obtain ⟨rfl, -⟩ := Prod.mk.inj (Except.ok.inj h)
          exact Or.inl ⟨trivial, unmoved_ensureRoom _ _⟩
      · have hfree := Bool.eq_false_iff.mpr hansTaken
        simp only [hoffTaken, hfree, Bool.not_true, Bool.not_false, Bool.false_eq_true, if_false,
          if_true] at h ⊢
        obtain ⟨-, h⟩ := sendValue_bind_eq_ok.mp h
        split at h
        · cases h
        · obtain ⟨rfl, -⟩ := Prod.mk.inj (Except.ok.inj h)
          exact Or.inr ⟨_, rfl, hjoin .answerer hfree⟩
    · have hfree := Bool.eq_false_iff.mpr hoffTaken
      simp only [hfree, Bool.not_false, if_true] at h ⊢
      obtain ⟨-, h⟩ := sendValue_bind_eq_ok.mp h
      split at h
      · cases h
      · obtain ⟨rfl, -⟩ := Prod.mk.inj (Except.ok.inj h)
        exact Or.inr ⟨_, rfl, hjoin .offerer hfree⟩

/-- A message leaves everybody where they are, or puts its socket into the slot
it claims. -/
theorem handleMessage_cases {ws now : ℕ} {parsed : Parsed} {out : List (ℕ × Reply)}
    (h : s.handleMessage ws now parsed = .ok (s', out)) :
    (s.claimed parsed = none ∧ Unmoved s s') ∨
      ∃ slot, s.claimed parsed = some slot ∧ Joined s s' ws slot := by
  unfold handleMessage at h
  split at h
  · obtain ⟨rfl, -⟩ := Prod.mk.inj (Except.ok.inj h)
    exact Or.inl ⟨rfl, .refl s⟩
  · cases h
  · rename_i msg
    split at h
    case h_1 htype => exact join_cases htype h
    case h_2 htype => exact joinNode_cases htype h
    case h_6 =>
      -- a type the server does not know
      have hnone : s.claimed (.message msg) = none := by simp_all [claimed]
      split at h
      · cases h
      · obtain ⟨rfl, -⟩ := Prod.mk.inj (Except.ok.inj h)
        exact Or.inl ⟨hnone, .refl s⟩
    all_goals
      rename_i htype
      have hnone : s.claimed (.message msg) = none := by simp_all [claimed]
      obtain ⟨-, rfl⟩ := map_eq_ok.mp h
      exact Or.inl ⟨hnone, .refl _⟩

/-! ### What a close event does -/

/-- A slot is emptied. -/
structure Emptied (s s' : Server) (slot : Slot) : Prop where
  sockets_eq : s'.sockets = s.sockets
  stored_eq : ∀ slot', s'.stored slot' = if slot' = slot then none else s.stored slot'

theorem isRoomEmpty_iff {slots : Slots} : isRoomEmpty slots = true ↔ ∀ role, slots role = none := by
  constructor
  · intro h role
    simp only [isRoomEmpty, Bool.and_eq_true, Option.isNone_iff_eq_none] at h
    cases role
    case sender => exact h.1.1.1
    case receiver => exact h.1.1.2
    case offerer => exact h.1.2
    case answerer => exact h.2
  · intro h
    simp [isRoomEmpty, h]

/-- A room without the slot, kept or deleted. -/
theorem emptied_update {slots : Slots} {slot : Slot}
    (hslots : s.rooms slot.roomType slot.room = some slots) :
    Emptied s (if isRoomEmpty (Function.update slots slot.role none) then
        s.deleteRoom slot.roomType slot.room
      else s.setRoom slot.roomType slot.room (Function.update slots slot.role none)) slot := by
  have hroom : ∀ slot' : Slot, slot'.roomType = slot.roomType ∧ slot'.room = slot.room →
      Function.update slots slot.role none slot'.role
        = if slot' = slot then none else s.stored slot' := by
    rintro slot' ⟨ht, hroom⟩
    by_cases hrole : slot'.role = slot.role
    · rw [if_pos (Slot.ext ht hroom hrole), hrole, Function.update_self]
    · have hne : slot' ≠ slot := by
        rintro rfl
        exact hrole rfl
      rw [Function.update_of_ne hrole, if_neg hne, stored, ht, hroom, hslots]
      rfl
  have helse : ∀ slot' : Slot, ¬(slot'.roomType = slot.roomType ∧ slot'.room = slot.room) →
      s.stored slot' = if slot' = slot then none else s.stored slot' := by
    intro slot' hne
    rw [if_neg]
    rintro rfl
    exact hne ⟨rfl, rfl⟩
  split
  case isTrue hempty =>
    refine ⟨rfl, fun slot' => ?_⟩
    rw [stored_deleteRoom]
    split
    · rw [← hroom slot' ‹_›, isRoomEmpty_iff.mp hempty]
    · exact helse slot' ‹_›
  case isFalse =>
    refine ⟨rfl, fun slot' => ?_⟩
    rw [stored_setRoom]
    split
    · exact hroom slot' ‹_›
    · exact helse slot' ‹_›

/-- A close event empties the slot its socket names, whoever is in it. -/
theorem handleClose_emptied {ws : ℕ} {sock : Socket} {slot : Slot}
    (hsock : s.sockets ws = some sock) (hslot : sock.slot = some slot) :
    Emptied s (s.handleClose ws).1 slot := by
  obtain ⟨ht, hroom, hrole⟩ := Socket.slot_eq_some.mp hslot
  simp only [handleClose, hsock, ht, hroom, hrole]
  rcases hslots : s.rooms slot.roomType slot.room with - | slots <;> simp only
  · refine ⟨rfl, fun slot' => ?_⟩
    split
    · subst slot'
      rw [stored, hslots]
      rfl
    · rfl
  · have h := emptied_update hslots
    split at h <;> rename_i hempty
    · rw [if_pos hempty]
      exact h
    · rw [if_neg hempty]
      exact h

theorem handleClose_of_slot_none {ws : ℕ} {sock : Socket} (hsock : s.sockets ws = some sock)
    (hslot : sock.slot = none) : s.handleClose ws = (s, []) := by
  simp only [handleClose, hsock]
  split
  · rename_i ht hroom hrole
    rw [Socket.slot, ht, hroom, hrole] at hslot
    cases hslot
  · rfl

/-! ### What an event does -/

theorem sockets_modifySocket {ws : ℕ} {sock : Socket} (f : Socket → Socket)
    (hsock : s.sockets ws = some sock) :
    (s.modifySocket ws f).sockets = Function.update s.sockets ws (some (f sock)) := by
  rw [modifySocket, hsock]
  rfl

end Server

open Server

/-- `Stepped s e s'`: what the event leaves of the sockets and the slots. -/
inductive Stepped (s : Server) : Event → Server → Prop
  | connect {ws : ℕ} (hnew : s.sockets ws = none) :
      Stepped s (.connect ws)
        { s with sockets := Function.update s.sockets ws (some newSocket) }
  | ignored {ws now : ℕ} {parsed : Parsed} {s' : Server} (hnone : s.claimed parsed = none)
      (h : Unmoved s s') : Stepped s (.message ws now parsed) s'
  | joined {ws now : ℕ} {parsed : Parsed} {s' : Server} {sock : Socket} {slot : Slot}
      (hsock : s.sockets ws = some sock) (hclaimed : s.claimed parsed = some slot)
      (h : Joined s s' ws slot) : Stepped s (.message ws now parsed) s'
  | closing {ws : ℕ} {sock : Socket} (hsock : s.sockets ws = some sock) :
      Stepped s (.closing ws) (s.modifySocket ws fun sock => { sock with readyState := .closing })
  | closed {ws : ℕ} {sock : Socket} (hsock : s.sockets ws = some sock) :
      Stepped s (.closed ws) (s.modifySocket ws fun sock => { sock with readyState := .closed })
  | unplaced {ws : ℕ} {sock : Socket} (hsock : s.sockets ws = some sock)
      (hclosed : sock.readyState = .closed) (hslot : sock.slot = none) :
      Stepped s (.close ws) (s.modifySocket ws fun sock => { sock with gone := true })
  | emptied {ws : ℕ} {sock : Socket} {slot : Slot} {s₁ : Server} (hsock : s.sockets ws = some sock)
      (hclosed : sock.readyState = .closed) (hslot : sock.slot = some slot)
      (h : Emptied s s₁ slot) :
      Stepped s (.close ws) (s₁.modifySocket ws fun sock => { sock with gone := true })

/-- **What a step does.** -/
theorem step_cases {s s' : Server} {e : Event} (h : step s e = some s') : Stepped s e s' := by
  obtain ⟨⟨s₁, out⟩, hreact, rfl⟩ := Option.map_eq_some_iff.mp h
  cases e with
  | connect ws =>
    obtain ⟨hnew, heq⟩ := Option.ite_none_right_eq_some.mp hreact
    obtain ⟨rfl, -⟩ := Prod.mk.inj (Option.some.inj heq)
    exact .connect (Option.isNone_iff_eq_none.mp hnew)
  | message ws now parsed =>
    obtain ⟨hsome, heq⟩ := Option.ite_none_right_eq_some.mp hreact
    obtain ⟨sock, hsock, -⟩ := (Option.any_eq_true _ _).mp hsome
    -- an exception ends the process, so there is no next state
    have hok : s.handleMessage ws now parsed = .ok (s₁, out) := by
      cases hm : s.handleMessage ws now parsed with
      | error e =>
        rw [hm] at heq
        cases heq
      | ok r =>
        rw [hm] at heq
        rw [Option.some.inj heq]
    rcases handleMessage_cases hok with ⟨hnone, h⟩ | ⟨slot, hclaimed, h⟩
    · exact .ignored hnone h
    · exact .joined hsock hclaimed h
  | closing ws =>
    obtain ⟨hsome, heq⟩ := Option.ite_none_right_eq_some.mp hreact
    obtain ⟨sock, hsock, -⟩ := (Option.any_eq_true _ _).mp hsome
    obtain ⟨rfl, -⟩ := Prod.mk.inj (Option.some.inj heq)
    exact .closing hsock
  | closed ws =>
    obtain ⟨hsome, heq⟩ := Option.ite_none_right_eq_some.mp hreact
    obtain ⟨sock, hsock, -⟩ := (Option.any_eq_true _ _).mp hsome
    obtain ⟨rfl, -⟩ := Prod.mk.inj (Option.some.inj heq)
    exact .closed hsock
  -- `handleClose` runs in the close event only
  | close ws =>
    obtain ⟨hsome, heq⟩ := Option.ite_none_right_eq_some.mp hreact
    obtain ⟨sock, hsock, hclosed⟩ := (Option.any_eq_true _ _).mp hsome
    obtain ⟨rfl, -⟩ := Prod.mk.inj (Option.some.inj heq)
    have hclosed' : sock.readyState = .closed := by simp_all
    cases hslot : sock.slot with
    | none =>
      rw [handleClose_of_slot_none hsock hslot]
      exact .unplaced hsock hclosed' hslot
    | some slot => exact .emptied hsock hclosed' hslot (handleClose_emptied hsock hslot)

end AmbiRTC.Signaling
