/-
AmbiRTC/Signaling.lean

The signaling server (server.js): sockets join rooms, one a slot, and have their
offers, answers and candidates relayed to the slot opposite.  Rooms come in two
families, `monoRooms` with a sender and a receiver and `bidirectionalRooms` with
an offerer and an answerer.

A message is what `JSON.parse` makes of the text; room ids may be any JSON value
and are keys of a `Map`, where objects count by identity.  `JSON.parse` takes values
of any depth, but `JSON.stringify` runs out of stack where they are nested too
deeply.  An exception that leaves the message handler ends the server.  The log is
left out, but for the exception a room id without a string form raises in it.
-/
import AmbiRTC.Runs
import Mathlib.Data.Rat.Defs
import Mathlib.Logic.Function.Basic

namespace AmbiRTC.Signaling

/-! ### Messages -/

/-- `role` of a socket. -/
inductive Role where
  | sender
  | receiver
  | offerer
  | answerer
  deriving DecidableEq, Repr

/-- `getOppositeRole`, on a role. -/
def getOppositeRole : Role → Role
  | .sender => .receiver
  | .receiver => .sender
  | .offerer => .answerer
  | .answerer => .offerer

/-- `roomType` of a socket. -/
inductive RoomType where
  | mono
  | bidirectional
  deriving DecidableEq, Repr

/-- A JSON number as a double. -/
inductive Number where
  | finite (x : ℚ)
  | infinite (negative : Bool)
  deriving DecidableEq

/-- The value of a field.  Of an object or array the handler only sees which one
it is, whether it converts to a string, which one that has its own `toString`
and `valueOf` does not, nor an array nested too deeply, and whether it is shallow
enough for `JSON.stringify`. -/
inductive Value where
  | undefined
  | null
  | bool (b : Bool)
  | number (x : Number)
  | string (s : String)
  | object (ref : ℕ) (hasText hasJson : Bool)
  deriving DecidableEq

/-- `!!v` -/
def Value.truthy : Value → Bool
  | .undefined | .null => false
  | .bool b => b
  | .number x => x ≠ .finite 0
  | .string s => s ≠ ""
  | .object _ _ _ => true

/-- Whether `${v}` is a string and not an exception. -/
def Value.hasText : Value → Bool
  | .object _ hasText _ => hasText
  | _ => true

/-- Whether `JSON.stringify` of an object with the field `v` is a string and not an
exception. -/
def Value.hasJson : Value → Bool
  | .object _ _ hasJson => hasJson
  | _ => true

/-- The fields of a message that the handler reads, and the whole of it as it is
relayed, if it is shallow enough for that.  A number, string or array has no such
fields. -/
structure Message where
  type : Value
  role : Value
  room : Value
  body : String
  /-- whether `JSON.stringify` of the message is a string and not an exception -/
  hasJson : Bool
  deriving DecidableEq

/-- What `JSON.parse` makes of a text. -/
inductive Parsed where
  | invalid
  | null
  | message (msg : Message)
  deriving DecidableEq

/-- `{ type: "join", role, room }` -/
def Parsed.join (role room : String) : Parsed :=
  .message ⟨.string "join", .string role, .string room, "", true⟩

/-- `{ type: "offer", … }` -/
def Parsed.offer (body : String) : Parsed :=
  .message ⟨.string "offer", .undefined, .undefined, body, true⟩

/-- The error messages of the server. -/
inductive ErrorMessage where
  | invalidJson
  | invalidJoinParams
  | invalidJoinNodeParams
  | roomHas (room : Value) (role : Role)
  | roomFull (room : Value)
  | unknownType (type : Value)
  | notConnected (role : Role)
  deriving DecidableEq

/-- What the server sends. -/
inductive Reply where
  | error (message : ErrorMessage) (suggestedRoom : Option String)
  | joined (role : Role) (room : Value)
  | roleAssigned (role : Role) (room : Value)
  | peerReady
  | peerDisconnected
  | relayed (body : String)
  deriving DecidableEq

/-- The exceptions that can leave the message handler. -/
inductive Throw where
  | readOfNull
  | matchNotFunction
  /-- for an array nested too deeply it is a `RangeError` -/
  | objectToPrimitive
  /-- the `RangeError` of `JSON.stringify` -/
  | stackOverflow
  deriving DecidableEq, Repr

/-! ### The server's state -/

/-- `readyState` of a socket the server has accepted. -/
inductive ReadyState where
  | open
  | closing
  | closed
  deriving DecidableEq, Repr

/-- What the server keeps on a socket; `none` is `null`. -/
structure Socket where
  readyState : ReadyState
  room : Option Value
  role : Option Role
  roomType : Option RoomType
  /-- whether its `close` event has been handled -/
  gone : Bool
  deriving DecidableEq

/-- A room object: the socket of each role it has one for. -/
abbrev Slots := Role → Option ℕ

/-- The object `{}`. -/
def noSlots : Slots := fun _ => none

/-- The server: its sockets, and `monoRooms` and `bidirectionalRooms`. -/
structure Server where
  sockets : ℕ → Option Socket
  rooms : RoomType → Value → Option Slots

/-- The server when it starts. -/
def start : Server where
  sockets := fun _ => none
  rooms := fun _ _ => none

namespace Server

/-- `ws.readyState === 1` -/
def isOpen (s : Server) (ws : ℕ) : Bool :=
  (s.sockets ws).any fun sock => sock.readyState = .open

/-- `room[role]?.readyState === 1` -/
def occupied (s : Server) (slots : Slots) (role : Role) : Bool := (slots role).any s.isOpen

/-- `send`, of an object the server has made of strings. -/
def send (s : Server) (ws : ℕ) (reply : Reply) : List (ℕ × Reply) :=
  if s.isOpen ws then [(ws, reply)] else []

/-- `send`, of an object with a client's value in it: `JSON.stringify` throws where that
is nested too deeply. -/
def sendValue (s : Server) (ws : ℕ) (hasJson : Bool) (reply : Reply) :
    Except Throw (List (ℕ × Reply)) :=
  if s.isOpen ws && !hasJson then .error .stackOverflow else .ok (s.send ws reply)

/-- `rooms.set(room, slots)` -/
def setRoom (s : Server) (t : RoomType) (room : Value) (slots : Slots) : Server :=
  { s with rooms := Function.update s.rooms t (Function.update (s.rooms t) room (some slots)) }

/-- `rooms.delete(room)` -/
def deleteRoom (s : Server) (t : RoomType) (room : Value) : Server :=
  { s with rooms := Function.update s.rooms t (Function.update (s.rooms t) room none) }

/-- `if (!rooms.has(room)) rooms.set(room, {})` -/
def ensureRoom (s : Server) (t : RoomType) (room : Value) : Server :=
  if (s.rooms t room).isNone then s.setRoom t room noSlots else s

/-- Change a socket. -/
def modifySocket (s : Server) (ws : ℕ) (f : Socket → Socket) : Server :=
  { s with sockets := Function.update s.sockets ws ((s.sockets ws).map f) }

/-- `room[role] = ws`, and the three fields of `ws` to match. -/
def register (s : Server) (ws : ℕ) (t : RoomType) (room : Value) (role : Role) : Server :=
  (s.setRoom t room (Function.update ((s.rooms t room).getD noSlots) role (some ws))).modifySocket
    ws fun sock => { sock with room := some room, role := some role, roomType := some t }

/-! ### Suggestions -/

/-- `baseId.match(/^(.+?)-?(\d+)$/)` on what is left behind the prefix: the digits. -/
def suffixDigits (rest : List Char) : Option (List Char) :=
  let digits := match rest with
    | '-' :: rest => rest
    | rest => rest
  if digits ≠ [] ∧ digits.all Char.isDigit then some digits else none

/-- The shortest prefix of at least one character that a suffix follows. -/
def matchSuffix : List Char → List Char → Option (List Char × List Char)
  | _, [] => none
  | pre, c :: rest =>
    if c ∈ ['\n', '\r', '\u2028', '\u2029'] then none
    else
      match suffixDigits rest with
      | some digits => some (pre ++ [c], digits)
      | none => matchSuffix (pre ++ [c]) rest

/-- `parseInt(digits, 10)` -/
def parseDigits (digits : List Char) : ℕ :=
  digits.foldl (fun n c => 10 * n + (c.toNat - '0'.toNat)) 0

/-- The loop over `n`, up to 100. -/
def firstFree (free : String → Bool) (pre : String) : ℕ → ℕ → Option String
  | 0, _ => none
  | room + 1, n =>
    if n ≤ 100 then
      let candidate := pre ++ "-" ++ toString n
      if free candidate then some candidate else firstFree free pre room (n + 1)
    else none

/-- The common part of `findFreeMonoRoom` and `findFreeBidirectionalRoom`, at the
time `now`; `none` is the exception on a `baseId` that is no string. -/
def findFree (free : String → Bool) (now : ℕ) : Value → Option String
  | .string baseId =>
    let found := matchSuffix [] baseId.toList
    let pre := match found with
      | some (pre, _) => String.ofList pre
      | none => baseId
    let n := match found with
      | some (_, digits) => parseDigits digits + 1
      | none => 2
    some ((firstFree free pre 101 n).getD (pre ++ "-" ++ toString now))
  | _ => none

/-- `findFreeMonoRoom`. -/
def findFreeMonoRoom (s : Server) (now : ℕ) (role : Role) (baseId : Value) : Option String :=
  findFree (fun candidate => match s.rooms .mono (.string candidate) with
    | none => true
    | some slots => !s.occupied slots role) now baseId

/-- `findFreeBidirectionalRoom`. -/
def findFreeBidirectionalRoom (s : Server) (now : ℕ) (baseId : Value) : Option String :=
  findFree (fun candidate => match s.rooms .bidirectional (.string candidate) with
    | none => true
    | some slots => !s.occupied slots .offerer || !s.occupied slots .answerer) now baseId

/-! ### The message handler -/

/-- `["sender", "receiver"].includes(role)` -/
def joinRole : Value → Option Role
  | .string "sender" => some .sender
  | .string "receiver" => some .receiver
  | _ => none

/-- `case "join"`. -/
def join (s : Server) (ws now : ℕ) (msg : Message) :
    Except Throw (Server × List (ℕ × Reply)) :=
  match joinRole msg.role with
  | none => .ok (s, s.send ws (.error .invalidJoinParams none))
  | some role =>
    if !msg.room.truthy then .ok (s, s.send ws (.error .invalidJoinParams none))
    else
      let s := s.ensureRoom .mono msg.room
      let slots := (s.rooms .mono msg.room).getD noSlots
      if s.occupied slots role then
        match s.findFreeMonoRoom now role msg.room with
        | none => .error .matchNotFunction
        | some suggested =>
          .ok (s, s.send ws (.error (.roomHas msg.room role) (some suggested)))
      else do
        let s := s.register ws .mono msg.room role
        let joined ← s.sendValue ws msg.room.hasJson (.joined role msg.room)
        if !msg.room.hasText then .error .objectToPrimitive
        else
          .ok (s, joined
            ++ (if role = .receiver then
                match slots .sender with
                | some peer => s.send peer .peerReady
                | none => []
              else if s.occupied slots .receiver then s.send ws .peerReady else []))

/-- The role `join_node` assigns. -/
def nodeRole (s : Server) (slots : Slots) : Option Role :=
  if !s.occupied slots .offerer then some .offerer
  else if !s.occupied slots .answerer then some .answerer
  else none

/-- `case "join_node"`. -/
def joinNode (s : Server) (ws now : ℕ) (msg : Message) :
    Except Throw (Server × List (ℕ × Reply)) :=
  if !msg.room.truthy then .ok (s, s.send ws (.error .invalidJoinNodeParams none))
  else
    let s := s.ensureRoom .bidirectional msg.room
    let slots := (s.rooms .bidirectional msg.room).getD noSlots
    match s.nodeRole slots with
    | none =>
      match s.findFreeBidirectionalRoom now msg.room with
      | none => .error .matchNotFunction
      | some suggested => .ok (s, s.send ws (.error (.roomFull msg.room) (some suggested)))
    | some role => do
      let s := s.register ws .bidirectional msg.room role
      let assigned ← s.sendValue ws msg.room.hasJson (.roleAssigned role msg.room)
      if !msg.room.hasText then .error .objectToPrimitive
      else
        .ok (s, assigned
          ++ (if role = .answerer then
              match slots .offerer with
              | some peer => s.send peer .peerReady
              | none => []
            else if s.occupied slots .answerer then s.send ws .peerReady else []))

/-- `relay(ws, getOppositeRole(ws.role), msg)`. -/
def relay (s : Server) (ws : ℕ) (msg : Message) : Except Throw (List (ℕ × Reply)) :=
  match s.sockets ws with
  | none => .ok []
  | some sock =>
    match sock.roomType, sock.room, sock.role with
    | some t, some room, some role =>
      match s.rooms t room with
      | none => .ok []
      | some slots =>
        let targetRole := getOppositeRole role
        match slots targetRole with
        | some target =>
          if s.isOpen target then s.sendValue target msg.hasJson (.relayed msg.body)
          else .ok (s.send ws (.error (.notConnected targetRole) none))
        | none => .ok (s.send ws (.error (.notConnected targetRole) none))
    | _, _, _ => .ok []

/-- The `message` handler of socket `ws`: the server afterwards and what it
sends, or the exception it throws. -/
def handleMessage (s : Server) (ws now : ℕ) :
    Parsed → Except Throw (Server × List (ℕ × Reply))
  | .invalid => .ok (s, s.send ws (.error .invalidJson none))
  | .null => .error .readOfNull
  | .message msg =>
    match msg.type with
    | .string "join" => s.join ws now msg
    | .string "join_node" => s.joinNode ws now msg
    | .string "offer" => (s.relay ws msg).map fun out => (s, out)
    | .string "answer" => (s.relay ws msg).map fun out => (s, out)
    | .string "ice" => (s.relay ws msg).map fun out => (s, out)
    | type =>
      if !type.hasText then .error .objectToPrimitive
      else .ok (s, s.send ws (.error (.unknownType type) none))

/-! ### The close handler -/

/-- `isRoomEmpty`. -/
def isRoomEmpty (slots : Slots) : Bool :=
  (slots .sender).isNone && (slots .receiver).isNone && (slots .offerer).isNone
    && (slots .answerer).isNone

/-- The `close` handler of socket `ws`. -/
def handleClose (s : Server) (ws : ℕ) : Server × List (ℕ × Reply) :=
  match s.sockets ws with
  | none => (s, [])
  | some sock =>
    match sock.roomType, sock.room, sock.role with
    | some t, some room, some role =>
      match s.rooms t room with
      | none => (s, [])
      | some slots =>
        let slots := Function.update slots role none
        let out := match slots (getOppositeRole role) with
          | some other => s.send other .peerDisconnected
          | none => []
        if isRoomEmpty slots then (s.deleteRoom t room, out) else (s.setRoom t room slots, out)
    | _, _, _ => (s, [])

end Server

/-! ### Events -/

/-- What happens to the server. -/
inductive Event where
  | connect (ws : ℕ)
  | message (ws now : ℕ) (parsed : Parsed)
  /-- `readyState` goes from OPEN to CLOSING -/
  | closing (ws : ℕ)
  /-- `readyState` goes from CLOSING to CLOSED -/
  | closed (ws : ℕ)
  /-- the `close` event is delivered -/
  | close (ws : ℕ)
  deriving DecidableEq

/-- A socket that has just connected. -/
def newSocket : Socket := ⟨.open, none, none, none, false⟩

/-- The server after an event, and what it sends; `none` where the event cannot
happen, or its handler throws and the server is no more. -/
def react (s : Server) : Event → Option (Server × List (ℕ × Reply))
  | .connect ws =>
    if (s.sockets ws).isNone then
      some ({ s with sockets := Function.update s.sockets ws (some newSocket) }, [])
    else none
  | .message ws now parsed =>
    if (s.sockets ws).any fun sock => sock.readyState ≠ .closed then
      (s.handleMessage ws now parsed).toOption
    else none
  | .closing ws =>
    if (s.sockets ws).any fun sock => sock.readyState = .open then
      some (s.modifySocket ws fun sock => { sock with readyState := .closing }, [])
    else none
  | .closed ws =>
    if (s.sockets ws).any fun sock => sock.readyState = .closing then
      some (s.modifySocket ws fun sock => { sock with readyState := .closed }, [])
    else none
  | .close ws =>
    if (s.sockets ws).any fun sock => sock.readyState = .closed && !sock.gone then
      let r := s.handleClose ws
      some (r.1.modifySocket ws fun sock => { sock with gone := true }, r.2)
    else none

/-- The server after an event. -/
def step (s : Server) (e : Event) : Option Server := (react s e).map Prod.fst

end AmbiRTC.Signaling
