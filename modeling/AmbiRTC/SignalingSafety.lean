/-
AmbiRTC/SignalingSafety.lean

Whether the message handler of the signaling server can throw.  A text that is
no JSON is answered with an error, and so are bad parameters of a join; the
message itself is never checked to be an object, nor a room id to be a string,
nor how deep either is nested.

Main result: a message is handled, with nobody moved or one socket registered,
just if it is not `null`; its room id is a string where the room is full, and
converts to one where it is not; a type the server does not know converts to a
string; and what is sent to an OPEN socket, a room id or a relayed message, is
shallow enough for `JSON.stringify` (`handleMessage_completes_iff`).
-/
import AmbiRTC.SignalingSlots

namespace AmbiRTC.Signaling

open Runs

/-! ### What the handler takes for granted -/

/-- Whether a value is a string. -/
def Value.isString : Value → Bool
  | .string _ => true
  | _ => false

namespace Server

/-- A room id the handler can work with: it looks for a suffix in the id of a
full room; any other it sends back, if the socket is OPEN, and logs. -/
def fits (s : Server) (ws : ℕ) (room : Value) (full : Bool) : Bool :=
  if full then room.isString else (!s.isOpen ws || room.hasJson) && room.hasText

/-- A `join` that does not throw. -/
def safeJoin (s : Server) (ws : ℕ) (msg : Message) : Bool :=
  match joinRole msg.role with
  | none => true
  | some role => !msg.room.truthy || s.fits ws msg.room (s.taken ⟨.mono, msg.room, role⟩)

/-- A `join_node` that does not throw. -/
def safeJoinNode (s : Server) (ws : ℕ) (msg : Message) : Bool :=
  !msg.room.truthy || s.fits ws msg.room (s.taken ⟨.bidirectional, msg.room, .offerer⟩
    && s.taken ⟨.bidirectional, msg.room, .answerer⟩)

/-- The socket opposite is OPEN, so that it is relayed to. -/
def paired (s : Server) (ws : ℕ) : Bool :=
  ((s.sockets ws).bind Socket.slot).any fun slot => s.taken slot.opposite

/-- An offer, answer or candidate that does not throw. -/
def safeRelay (s : Server) (ws : ℕ) (msg : Message) : Bool := !s.paired ws || msg.hasJson

/-- A message whose handler does not throw. -/
def safe (s : Server) (ws : ℕ) : Parsed → Bool
  | .invalid => true
  | .null => false
  | .message msg =>
    match msg.type with
    | .string "join" => s.safeJoin ws msg
    | .string "join_node" => s.safeJoinNode ws msg
    | .string "offer" | .string "answer" | .string "ice" => s.safeRelay ws msg
    | type => type.hasText

/-! ### The handler -/

variable {s : Server} {ws now : ℕ}

/-- A suggestion is made to every string, and to no other id. -/
theorem findFree_isSome (free : String → Bool) (now : ℕ) (baseId : Value) :
    (findFree free now baseId).isSome = baseId.isString := by
  cases baseId <;> rfl

/-- Where a room id is sent back and logged. -/
theorem sendValue_completes_iff {room : Value} {reply : Reply} {s₁ s₂ : Server}
    {out : List (ℕ × Reply)} (hopen : s₁.isOpen ws = s.isOpen ws) :
    (∃ r, (s₁.sendValue ws room.hasJson reply >>= fun sent =>
        if !room.hasText then .error .objectToPrimitive else .ok (s₂, sent ++ out)) = .ok r)
      ↔ s.fits ws room false = true := by
  simp only [sendValue_bind_eq_ok, hopen, fits]
  cases s.isOpen ws <;> cases room.hasJson <;> cases room.hasText <;> simp

/-- Registering a socket opens and closes none. -/
theorem isOpen_registered (t : RoomType) (room : Value) (role : Role) (ws' : ℕ) :
    ((s.ensureRoom t room).register ws t room role).isOpen ws' = s.isOpen ws' := by
  rw [← isOpen_congr (sockets_ensureRoom (s := s) t room), register, isOpen, isOpen, modifySocket,
    setRoom]
  by_cases h : ws' = ws
  · subst h
    cases (s.ensureRoom t room).sockets ws' <;> simp
  · simp [h]

theorem join_completes_iff {msg : Message} :
    (∃ r, s.join ws now msg = .ok r) ↔ s.safeJoin ws msg = true := by
  unfold join safeJoin
  rcases joinRole msg.role with - | role
  · exact ⟨fun _ => rfl, fun _ => ⟨_, rfl⟩⟩
  have hocc := @occupied_ensureRoom s ⟨.mono, msg.room, role⟩
  simp only at hocc
  simp only [hocc]
  cases htruthy : msg.room.truthy
  case false => simp
  cases htaken : s.taken ⟨.mono, msg.room, role⟩
  case false =>
    simp only [Bool.not_true, Bool.false_eq_true, if_false, Bool.false_or]
    exact sendValue_completes_iff (isOpen_registered _ _ _ _)
  case true =>
    have hsome : ((s.ensureRoom .mono msg.room).findFreeMonoRoom now role msg.room).isSome
        = msg.room.isString := findFree_isSome _ _ _
    simp only [Bool.not_true, Bool.false_eq_true, if_false, if_true, Bool.false_or, fits,
      ← hsome]
    cases (s.ensureRoom .mono msg.room).findFreeMonoRoom now role msg.room <;> simp

theorem joinNode_completes_iff {msg : Message} :
    (∃ r, s.joinNode ws now msg = .ok r) ↔ s.safeJoinNode ws msg = true := by
  unfold joinNode safeJoinNode
  have hoff := @occupied_ensureRoom s ⟨.bidirectional, msg.room, .offerer⟩
  have hans := @occupied_ensureRoom s ⟨.bidirectional, msg.room, .answerer⟩
  simp only at hoff hans
  simp only [nodeRole, hoff, hans]
  cases htruthy : msg.room.truthy
  case false => simp
  cases htaken : s.taken ⟨.bidirectional, msg.room, .offerer⟩
  case false =>
    simp only [Bool.not_true, Bool.not_false, Bool.false_eq_true, if_false, if_true,
      Bool.false_or, Bool.false_and]
    exact sendValue_completes_iff (isOpen_registered _ _ _ _)
  cases htaken' : s.taken ⟨.bidirectional, msg.room, .answerer⟩
  case false =>
    simp only [Bool.not_true, Bool.not_false, Bool.false_eq_true, if_false, if_true,
      Bool.false_or, Bool.and_false]
    exact sendValue_completes_iff (isOpen_registered _ _ _ _)
  case true =>
    have hsome : ((s.ensureRoom .bidirectional msg.room).findFreeBidirectionalRoom now
        msg.room).isSome = msg.room.isString := findFree_isSome _ _ _
    simp only [Bool.not_true, Bool.false_eq_true, if_false, Bool.false_or, Bool.and_self,
      fits, if_true, ← hsome]
    cases (s.ensureRoom .bidirectional msg.room).findFreeBidirectionalRoom now msg.room <;> simp

/-- A relay throws where there is somebody to relay to and the message is too deep. -/
theorem relay_completes_iff {msg : Message} :
    (∃ out, s.relay ws msg = .ok out) ↔ s.safeRelay ws msg = true := by
  unfold relay safeRelay paired
  rcases hsock : s.sockets ws with - | sock
  · simp
  simp only [Option.bind_some]
  rcases hslot : sock.slot with - | slot
  · -- a socket in no room
    have hnone : ∀ t room role, sock.roomType = some t → sock.room = some room →
        sock.role = some role → False := by
      intro t room role ht hroom hrole
      rw [Socket.slot, ht, hroom, hrole] at hslot
      cases hslot
    split
    case h_1 ht hroom hrole => exact (hnone _ _ _ ht hroom hrole).elim
    case h_2 => simp
  · obtain ⟨ht, hroom, hrole⟩ := Socket.slot_eq_some.mp hslot
    simp only [ht, hroom, hrole, Option.any_some, taken, stored, Slot.opposite]
    rcases s.rooms slot.roomType slot.room with - | slots
    · simp
    simp only [Option.bind_some]
    rcases slots (getOppositeRole slot.role) with - | target
    · simp
    simp only [Option.any_some]
    cases hopen : s.isOpen target <;> simp [sendValue_eq_ok, hopen]

theorem map_completes_iff {x : Except Throw (List (ℕ × Reply))} :
    (∃ r, (x.map fun out => (s, out)) = .ok r) ↔ ∃ out, x = .ok out := by
  cases x <;> simp [Except.map]

/-- The handler returns where the message is safe, and throws elsewhere. -/
theorem completes_iff {parsed : Parsed} :
    (∃ r, s.handleMessage ws now parsed = .ok r) ↔ s.safe ws parsed = true := by
  rcases parsed with - | - | msg
  · simp [handleMessage, safe]
  · simp [handleMessage, safe]
  · simp only [handleMessage]
    split
    case h_1 htype =>
      simp only [safe, htype]
      exact join_completes_iff
    case h_2 htype =>
      simp only [safe, htype]
      exact joinNode_completes_iff
    case h_3 htype | h_4 htype | h_5 htype =>
      simp only [safe, htype]
      exact map_completes_iff.trans relay_completes_iff
    case h_6 =>
      have hsafe : s.safe ws (.message msg) = msg.type.hasText := by simp only [safe]
      rw [hsafe]
      cases msg.type.hasText <;> simp

/-- **When a message is handled.**  In every state the handler returns, leaving
everybody where they are or registering the one socket, just if the message is
safe there. -/
theorem handleMessage_completes_iff (s : Server) (ws now : ℕ) (parsed : Parsed) :
    (∃ s' out, s.handleMessage ws now parsed = .ok (s', out) ∧
      (Unmoved s s' ∨ ∃ slot, Joined s s' ws slot)) ↔ s.safe ws parsed = true := by
  rw [← completes_iff]
  constructor
  · rintro ⟨s', out, h, -⟩
    exact ⟨_, h⟩
  · rintro ⟨⟨s', out⟩, h⟩
    refine ⟨s', out, h, ?_⟩
    rcases handleMessage_cases h with ⟨-, hunmoved⟩ | ⟨slot, -, hjoined⟩
    · exact Or.inl hunmoved
    · exact Or.inr ⟨slot, hjoined⟩

end Server

/-- A sender asks for room 5, the number. -/
def joinFive : Parsed :=
  .message ⟨.string "join", .string "sender", .number (.finite 5), "", true⟩

/-- A receiver does. -/
def receiveFive : Parsed :=
  .message ⟨.string "join", .string "receiver", .number (.finite 5), "", true⟩

/-- An offer with some ten thousand brackets in it. -/
def deepOffer : Parsed := .message ⟨.string "offer", .undefined, .undefined, "", false⟩

/-- With a sender and a receiver in room 5, `null`, a second sender and a deep offer are too
much. -/
theorem handleMessage_throws : ∃ s,
    Run step start [.connect 0, .connect 1, .message 0 0 joinFive, .message 1 0 receiveFive] s ∧
      (¬∃ r, s.handleMessage 1 0 .null = .ok r) ∧
      (¬∃ r, s.handleMessage 1 0 joinFive = .ok r) ∧
      ¬∃ r, s.handleMessage 0 0 deepOffer = .ok r := by
  obtain ⟨s, hs, hthrows⟩ := (Option.any_eq_true _ _).mp
    (by decide : (exec step start [.connect 0, .connect 1, .message 0 0 joinFive,
        .message 1 0 receiveFive]).any (fun s =>
      (s.handleMessage 1 0 .null).toOption.isNone ∧
        (s.handleMessage 1 0 joinFive).toOption.isNone ∧
        (s.handleMessage 0 0 deepOffer).toOption.isNone) = true)
  obtain ⟨hnull, hfive, hdeep⟩ := of_decide_eq_true hthrows
  refine ⟨s, .of_exec hs, ?_, ?_, ?_⟩
  · rintro ⟨r, h⟩
    rw [h] at hnull
    cases hnull
  · rintro ⟨r, h⟩
    rw [h] at hfive
    cases hfive
  · rintro ⟨r, h⟩
    rw [h] at hdeep
    cases hdeep

end AmbiRTC.Signaling
