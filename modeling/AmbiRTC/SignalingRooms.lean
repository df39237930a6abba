/-
AmbiRTC/SignalingRooms.lean

The rooms the signaling server keeps.  A room is made for a socket that joins, and
every room has somebody in it (`Inhabited`): it is deleted with the last slot.

The close handler empties the slot that the socket's fields name.  A socket that
joins a second room stays in its first slot, but names the second; unless another
socket names the first, nobody will ever empty it, and that room is never deleted.
Where no socket moves on like that, no room leaks:

    noLeak_of_leaves :  Along step Leaves start as → Throughout step NoLeak start as

and once one has, the others need only leave for a room to be left (`exists_leak`).
-/
import AmbiRTC.SignalingRegistration
import AmbiRTC.SignalingRelay

namespace AmbiRTC.Signaling

open Runs Server

/-- Every socket that has joined a room has had its close event handled. -/
def AllGone (s : Server) : Prop :=
  ∀ ws sock, s.sockets ws = some sock → sock.room ≠ none → sock.gone = true

/-- No room is left once everybody has gone. -/
def NoLeak (s : Server) : Prop := AllGone s → ∀ t room, s.rooms t room = none

/-- As it stands, the close event of `ws` will empty the slot. -/
def WillEmpty (s : Server) (ws : ℕ) (slot : Slot) : Prop :=
  ∃ sock, s.sockets ws = some sock ∧ sock.gone = false ∧ sock.slot = some slot

/-- A socket is not moved out of a slot that somebody is in and only its own close
event will empty. -/
def Leaves (s : Server) : Event → Prop
  | .message ws _ parsed => ∀ slot slot', s.claimed parsed = some slot' → slot' ≠ slot →
      WillEmpty s ws slot → s.stored slot ≠ none → ∃ ws', ws' ≠ ws ∧ WillEmpty s ws' slot
  | _ => True

/-! ### Every room has somebody in it -/

/-- Somebody is in the room. -/
def Peopled (s : Server) (t : RoomType) (room : Value) : Prop :=
  ∃ role, s.stored ⟨t, room, role⟩ ≠ none

def Inhabited (s : Server) : Prop := ∀ t room, s.rooms t room ≠ none → Peopled s t room

variable {s s' : Server} {e : Event}

/-- A change to one room only, with somebody in it afterwards or no room at all. -/
theorem Inhabited.change (hs : Inhabited s) (t : RoomType) (room : Value)
    (hrooms : ∀ t' room', ¬(t' = t ∧ room' = room) → s'.rooms t' room' = s.rooms t' room')
    (hroom : s'.rooms t room ≠ none → Peopled s' t room) : Inhabited s' := by
  intro t' room' hsome
  by_cases heq : t' = t ∧ room' = room
  · obtain ⟨rfl, rfl⟩ := heq
    exact hroom hsome
  · have hsame := hrooms t' room' heq
    rw [hsame] at hsome
    obtain ⟨role, hrole⟩ := hs t' room' hsome
    refine ⟨role, ?_⟩
    rw [stored, hsame]
    exact hrole

theorem Inhabited.of_rooms (hs : Inhabited s) (hrooms : s'.rooms = s.rooms) : Inhabited s' := by
  intro t room hsome
  rw [hrooms] at hsome
  obtain ⟨role, hrole⟩ := hs t room hsome
  exact ⟨role, by rwa [stored, hrooms]⟩

/-- A room in which a slot is taken was there before it was looked up. -/
theorem Inhabited.ensureRoom (hs : Inhabited s) {slot : Slot} (htaken : s.taken slot = true) :
    Inhabited (s.ensureRoom slot.roomType slot.room) := by
  refine hs.of_rooms ?_
  unfold Server.ensureRoom
  split
  · rename_i hnone
    rw [taken, stored, Option.isNone_iff_eq_none.mp hnone] at htaken
    cases htaken
  · rfl

/-- Whoever joins a room is in it. -/
theorem Inhabited.register (hs : Inhabited s) (ws : ℕ) (slot : Slot) :
    Inhabited ((s.ensureRoom slot.roomType slot.room).register ws slot.roomType slot.room
      slot.role) := by
  refine hs.change slot.roomType slot.room (fun t' room' hne => ?_) fun _ => ?_
  · show ((s.ensureRoom slot.roomType slot.room).setRoom _ _ _).rooms t' room' = _
    rw [rooms_setRoom, if_neg hne]
    unfold Server.ensureRoom
    split
    · rw [rooms_setRoom, if_neg hne]
    · rfl
  · refine ⟨slot.role, ?_⟩
    rw [stored_register, if_pos rfl]
    exact Option.some_ne_none ws

theorem Inhabited.join (hs : Inhabited s) {ws now : ℕ} {msg : Message} {out : List (ℕ × Reply)}
    (h : s.join ws now msg = .ok (s', out)) : Inhabited s' := by
  unfold Server.join at h
  split at h
  · obtain ⟨rfl, -⟩ := Prod.mk.inj (Except.ok.inj h)
    exact hs
  · rename_i role hrole
    have hocc := @occupied_ensureRoom s ⟨.mono, msg.room, role⟩
    simp only at hocc
    simp only [hocc] at h
    split at h
    · obtain ⟨rfl, -⟩ := Prod.mk.inj (Except.ok.inj h)
      exact hs
    · split at h
      case isTrue htaken =>
        split at h
        · cases h
        · obtain ⟨rfl, -⟩ := Prod.mk.inj (Except.ok.inj h)
          exact hs.ensureRoom htaken
      case isFalse =>
        obtain ⟨-, h⟩ := sendValue_bind_eq_ok.mp h
        split at h
        · cases h
        · obtain ⟨rfl, -⟩ := Prod.mk.inj (Except.ok.inj h)
          exact hs.register ws ⟨.mono, msg.room, role⟩

theorem Inhabited.joinNode (hs : Inhabited s) {ws now : ℕ} {msg : Message}
    {out : List (ℕ × Reply)} (h : s.joinNode ws now msg = .ok (s', out)) : Inhabited s' := by
  unfold Server.joinNode at h
  split at h
  · obtain ⟨rfl, -⟩ := Prod.mk.inj (Except.ok.inj h)
    exact hs
  · have hoff := @occupied_ensureRoom s ⟨.bidirectional, msg.room, .offerer⟩
    simp only at hoff
    simp only at h
    split at h
    case h_1 hfull =>
      -- both slots are taken, so the room was there
      have htaken : s.taken ⟨.bidirectional, msg.room, .offerer⟩ = true := by
        by_contra hfree
        rw [nodeRole, hoff, if_pos (by rw [Bool.eq_false_iff.mpr hfree]; rfl)] at hfull
        cases hfull
      split at h
      · cases h
      · obtain ⟨rfl, -⟩ := Prod.mk.inj (Except.ok.inj h)
        exact hs.ensureRoom htaken
    case h_2 role _ =>
      obtain ⟨-, h⟩ := sendValue_bind_eq_ok.mp h
      split at h
      · cases h
      · obtain ⟨rfl, -⟩ := Prod.mk.inj (Except.ok.inj h)
        exact hs.register ws ⟨.bidirectional, msg.room, role⟩

theorem Inhabited.handleMessage (hs : Inhabited s) {ws now : ℕ} {parsed : Parsed}
    {out : List (ℕ × Reply)} (h : s.handleMessage ws now parsed = .ok (s', out)) :
    Inhabited s' := by
  unfold Server.handleMessage at h
  split at h
  · obtain ⟨rfl, -⟩ := Prod.mk.inj (Except.ok.inj h)
    exact hs
  · cases h
  · split at h
    case h_1 => exact hs.join h
    case h_2 => exact hs.joinNode h
    case h_6 =>
      split at h
      · cases h
      · obtain ⟨rfl, -⟩ := Prod.mk.inj (Except.ok.inj h)
        exact hs
    all_goals
      obtain ⟨-, rfl⟩ := map_eq_ok.mp h
      exact hs

/-- The close handler deletes the room it leaves empty. -/
theorem Inhabited.handleClose (hs : Inhabited s) (ws : ℕ) : Inhabited (s.handleClose ws).1 := by
  unfold Server.handleClose
  split
  · exact hs
  · split
    · rename_i t room role _ _ _
      split
      · exact hs
      · rename_i slots hslots
        dsimp only
        split
        case isTrue =>
          refine hs.change t room (fun t' room' hne => ?_) fun hsome => ?_
          · rw [rooms_deleteRoom, if_neg hne]
          · rw [rooms_deleteRoom, if_pos ⟨rfl, rfl⟩] at hsome
            exact absurd rfl hsome
        case isFalse hleft =>
          refine hs.change t room (fun t' room' hne => ?_) fun _ => ?_
          · rw [rooms_setRoom, if_neg hne]
          · by_contra hnobody
            refine hleft (isRoomEmpty_iff.mpr fun role' => ?_)
            by_contra hsome
            refine hnobody ⟨role', ?_⟩
            rw [stored_setRoom, if_pos ⟨rfl, rfl⟩]
            exact hsome
    · exact hs

/-- **Every room has somebody in it**, whatever happens. -/
theorem Inhabited.step (hs : Inhabited s) (h : step s e = some s') : Inhabited s' := by
  obtain ⟨⟨s₁, out⟩, hreact, rfl⟩ := Option.map_eq_some_iff.mp h
  cases e with
  | connect ws | closing ws | closed ws =>
    obtain ⟨-, heq⟩ := Option.ite_none_right_eq_some.mp hreact
    obtain ⟨rfl, -⟩ := Prod.mk.inj (Option.some.inj heq)
    exact hs.of_rooms rfl
  | message ws now parsed =>
    obtain ⟨-, heq⟩ := Option.ite_none_right_eq_some.mp hreact
    cases hm : s.handleMessage ws now parsed with
    | error e =>
      rw [hm] at heq
      cases heq
    | ok r =>
      rw [hm] at heq
      obtain rfl := Option.some.inj heq
      exact hs.handleMessage hm
  | close ws =>
    obtain ⟨-, heq⟩ := Option.ite_none_right_eq_some.mp hreact
    obtain ⟨rfl, -⟩ := Prod.mk.inj (Option.some.inj heq)
    exact (hs.handleClose ws).of_rooms rfl

theorem inhabited_start : Inhabited start := fun _ _ h => absurd rfl h

/-! ### Every slot will be emptied -/

/-- A socket's close event comes when it is CLOSED. -/
def GoneClosed (s : Server) : Prop :=
  ∀ ws sock, s.sockets ws = some sock → sock.gone = true → sock.readyState = .closed

theorem GoneClosed.update (hs : GoneClosed s) {ws : ℕ} {sock : Socket}
    (hsockets : s'.sockets = Function.update s.sockets ws (some sock))
    (hsock : sock.gone = true → sock.readyState = .closed) : GoneClosed s' := by
  intro ws' sock' hsock' hgone
  rw [hsockets] at hsock'
  rcases sockets_update hsock' with ⟨-, rfl⟩ | ⟨-, hold⟩
  · exact hsock hgone
  · exact hs ws' sock' hold hgone

/-- A socket that is sent a message, or changes its `readyState`, has not gone. -/
theorem GoneClosed.not_gone (hs : GoneClosed s) {ws : ℕ} {sock : Socket}
    (hsock : s.sockets ws = some sock) (hnot : sock.readyState ≠ .closed) : sock.gone = false :=
  Bool.eq_false_iff.mpr fun hgone => hnot (hs ws sock hsock hgone)

/-- What an event needs of the socket it is about. -/
theorem not_closed_of_step (h : step s e = some s') {ws : ℕ} {sock : Socket}
    (hsock : s.sockets ws = some sock)
    (he : e = .closing ws ∨ e = .closed ws ∨ ∃ now parsed, e = .message ws now parsed) :
    sock.readyState ≠ .closed := by
  obtain ⟨⟨s₁, out⟩, hreact, -⟩ := Option.map_eq_some_iff.mp h
  rcases he with rfl | rfl | ⟨now, parsed, rfl⟩
  all_goals
    obtain ⟨hsome, -⟩ := Option.ite_none_right_eq_some.mp hreact
    rw [hsock, Option.any_some, decide_eq_true_eq] at hsome
  · rw [hsome]
    exact fun h => nomatch h
  · rw [hsome]
    exact fun h => nomatch h
  · exact hsome

theorem GoneClosed.step (hs : GoneClosed s) (h : step s e = some s') : GoneClosed s' := by
  cases step_cases h with
  | connect => exact hs.update rfl fun hgone => absurd hgone Bool.false_ne_true
  | ignored _ hunmoved =>
    intro ws sock hsock
    rw [hunmoved.sockets_eq] at hsock
    exact hs ws sock hsock
  | @joined ws _ _ _ sock _ hsock _ hjoined =>
    have hsockets := hjoined.sockets_eq
    rw [hsock] at hsockets
    exact hs.update hsockets (hs ws sock hsock)
  | closing hsock =>
    have hgone := hs.not_gone hsock (not_closed_of_step h hsock (Or.inl rfl))
    refine hs.update (sockets_modifySocket _ hsock) fun hgone' => ?_
    exact absurd (hgone.symm.trans hgone') Bool.false_ne_true
  | closed hsock => exact hs.update (sockets_modifySocket _ hsock) fun _ => rfl
  | unplaced hsock hclosed => exact hs.update (sockets_modifySocket _ hsock) fun _ => hclosed
  | emptied hsock hclosed _ hempty =>
    have hsockets := sockets_modifySocket (fun sock => { sock with gone := true })
      ((congrFun hempty.sockets_eq _).trans hsock)
    rw [hempty.sockets_eq] at hsockets
    exact hs.update hsockets fun _ => hclosed

/-- Every slot somebody is in will be emptied. -/
def Owned (s : Server) : Prop := ∀ slot, s.stored slot ≠ none → ∃ ws, WillEmpty s ws slot

/-- A socket changes, but for what the others will empty. -/
theorem WillEmpty.other {ws ws' : ℕ} {slot : Slot} {sock : Option Socket}
    (h : WillEmpty s ws slot) (hne : ws ≠ ws')
    (hsockets : s'.sockets = Function.update s.sockets ws' sock) : WillEmpty s' ws slot := by
  obtain ⟨sock, hsock, hgone, hslot⟩ := h
  exact ⟨sock, by rw [hsockets, Function.update_of_ne hne, hsock], hgone, hslot⟩

/-- The `readyState` of a socket changes. -/
theorem Owned.readyState (hs : Owned s) {ws : ℕ} {sock sock' : Socket}
    (hsock : s.sockets ws = some sock)
    (hsockets : s'.sockets = Function.update s.sockets ws (some sock'))
    (hstored : ∀ slot, s'.stored slot = s.stored slot) (hslot : sock'.slot = sock.slot)
    (hgone : sock'.gone = sock.gone) : Owned s' := by
  intro slot hsome
  rw [hstored] at hsome
  obtain ⟨ws', hempty⟩ := hs slot hsome
  by_cases heq : ws' = ws
  · subst heq
    obtain ⟨sock₁, hsock₁, hgone₁, hslot₁⟩ := hempty
    obtain rfl := Option.some.inj (hsock.symm.trans hsock₁)
    refine ⟨ws', sock', ?_, hgone.trans hgone₁, hslot.trans hslot₁⟩
    rw [hsockets, Function.update_self]
  · exact ⟨ws', hempty.other heq hsockets⟩

/-- **Every slot somebody is in will be emptied**, as long as nobody moves on. -/
theorem Owned.step (hs : Owned s) (hclosed : GoneClosed s) (hleaves : Leaves s e)
    (h : step s e = some s') : Owned s' := by
  cases step_cases h with
  | @connect ws hnew =>
    intro slot hsome
    obtain ⟨ws', hempty⟩ := hs slot hsome
    refine ⟨ws', hempty.other ?_ rfl⟩
    rintro rfl
    obtain ⟨sock, hsock, -⟩ := hempty
    rw [hnew] at hsock
    cases hsock
  | ignored _ hunmoved =>
    intro slot hsome
    rw [hunmoved.stored_eq] at hsome
    obtain ⟨ws, sock, hsock, hempty⟩ := hs slot hsome
    exact ⟨ws, sock, by rw [hunmoved.sockets_eq, hsock], hempty⟩
  | @joined ws now parsed _ sock slot' hsock hclaimed hjoined =>
    have hsockets := hjoined.sockets_eq
    rw [hsock] at hsockets
    intro slot hsome
    rw [hjoined.stored_eq] at hsome
    split at hsome
    · -- the slot it joins is the one it names now
      have hgone : sock.gone = false := hclosed.not_gone hsock
        (not_closed_of_step h hsock (Or.inr (Or.inr ⟨now, parsed, rfl⟩)))
      refine ⟨ws, sock.name slot', by rw [hsockets, Function.update_self]; rfl, hgone, ?_⟩
      subst slot
      exact Socket.slot_name sock slot'
    · rename_i hne
      obtain ⟨ws', hempty⟩ := hs slot hsome
      by_cases heq : ws' = ws
      · subst heq
        obtain ⟨ws₂, hne₂, hempty₂⟩ :=
          hleaves slot slot' hclaimed (fun heq => hne heq.symm) hempty hsome
        exact ⟨ws₂, hempty₂.other hne₂ hsockets⟩
      · exact ⟨ws', hempty.other heq hsockets⟩
  | closing hsock =>
    exact hs.readyState hsock (sockets_modifySocket _ hsock) (fun _ => rfl) rfl rfl
  | closed hsock =>
    exact hs.readyState hsock (sockets_modifySocket _ hsock) (fun _ => rfl) rfl rfl
  | @unplaced ws sock hsock _ hslot =>
    intro slot hsome
    obtain ⟨ws', hempty⟩ := hs slot hsome
    refine ⟨ws', hempty.other ?_ (sockets_modifySocket _ hsock)⟩
    -- a socket that names no slot will empty none
    rintro rfl
    obtain ⟨sock₁, hsock₁, -, hslot₁⟩ := hempty
    obtain rfl := Option.some.inj (hsock.symm.trans hsock₁)
    rw [hslot] at hslot₁
    cases hslot₁
  | @emptied ws sock slot' s₁ hsock _ hslot hemptied =>
    have hsockets := sockets_modifySocket (fun sock => { sock with gone := true })
      ((congrFun hemptied.sockets_eq _).trans hsock)
    rw [hemptied.sockets_eq] at hsockets
    intro slot hsome
    rw [stored_modifySocket, hemptied.stored_eq] at hsome
    split at hsome
    · exact absurd rfl hsome
    · rename_i hne
      obtain ⟨ws', hempty⟩ := hs slot hsome
      refine ⟨ws', hempty.other ?_ hsockets⟩
      -- the slot that has just been emptied is another
      rintro rfl
      obtain ⟨sock₁, hsock₁, -, hslot₁⟩ := hempty
      obtain rfl := Option.some.inj (hsock.symm.trans hsock₁)
      exact hne (Option.some.inj (hslot₁.symm.trans hslot))

/-! ### Runs -/

/-- What the rooms and slots are like while nobody moves on. -/
structure Tidy (s : Server) : Prop where
  inhabited : Inhabited s
  goneClosed : GoneClosed s
  owned : Owned s

theorem tidy_start : Tidy start :=
  ⟨inhabited_start, fun _ _ h => (nomatch h), fun _ h => absurd rfl h⟩

theorem Tidy.step (hs : Tidy s) (hleaves : Leaves s e) (h : step s e = some s') : Tidy s' :=
  ⟨hs.inhabited.step h, hs.goneClosed.step h, hs.owned.step hs.goneClosed hleaves h⟩

theorem Tidy.noLeak (hs : Tidy s) : NoLeak s := by
  intro hall t room
  by_contra hsome
  obtain ⟨role, hrole⟩ := hs.inhabited t room hsome
  obtain ⟨ws, sock, hsock, hgone, hslot⟩ := hs.owned _ hrole
  have hroom : sock.room ≠ none := by
    rw [(Socket.slot_eq_some.mp hslot).2.1]
    exact Option.some_ne_none _
  rw [hall ws sock hsock hroom] at hgone
  cases hgone

/-- **No room leaks** in every run in which no socket is moved out of a slot that
somebody is in and nobody else will empty. -/
theorem noLeak_of_leaves {as : List Event} (hP : Along step Leaves start as) :
    Throughout step NoLeak start as := by
  intro as₁ as₂ s has hrun
  exact (throughout_of_along (fun _ _ _ hs hP h => hs.step hP h) hP tidy_start
    as₁ as₂ s has hrun).noLeak

/-! ### Moving on -/

/-- A socket that is CLOSED has its close event handled. -/
theorem run_close {ws : ℕ} {sock : Socket} (hsock : s.sockets ws = some sock)
    (hgone : sock.gone = false) (hclosed : sock.readyState = .closed) :
    ∃ s', Run step s [.close ws] s' ∧
      s'.sockets = Function.update s.sockets ws (some { sock with gone := true }) ∧
        ∀ slot, sock.slot ≠ some slot → s'.stored slot = s.stored slot := by
  have hstep : step s (.close ws)
      = some ((s.handleClose ws).1.modifySocket ws fun sock => { sock with gone := true }) := by
    simp [step, react, hsock, hgone, hclosed]
  refine ⟨_, .cons hstep (.nil _), ?_⟩
  rcases hslot : sock.slot with - | slot'
  · rw [handleClose_of_slot_none hsock hslot]
    exact ⟨sockets_modifySocket _ hsock, fun _ _ => rfl⟩
  · have hemptied := handleClose_emptied hsock hslot
    constructor
    · rw [sockets_modifySocket _ ((congrFun hemptied.sockets_eq _).trans hsock),
        hemptied.sockets_eq]
    · intro slot hne
      rw [stored_modifySocket, hemptied.stored_eq, if_neg]
      rintro rfl
      exact hne rfl

/-- Every socket can leave, and leaves the slots it does not name as they are. -/
theorem run_leave {ws : ℕ} {sock : Socket} (hsock : s.sockets ws = some sock)
    (hgone : sock.gone = false) :
    ∃ bs s' sock', Run step s bs s' ∧ s'.sockets = Function.update s.sockets ws (some sock') ∧
      sock'.gone = true ∧ ∀ slot, sock.slot ≠ some slot → s'.stored slot = s.stored slot := by
  -- from CLOSING, and then from OPEN
  have hclosing {s : Server} {sock : Socket} (hsock : s.sockets ws = some sock)
      (hgone : sock.gone = false) (hready : sock.readyState = .closing) :
      ∃ bs s' sock', Run step s bs s' ∧ s'.sockets = Function.update s.sockets ws (some sock') ∧
        sock'.gone = true ∧ ∀ slot, sock.slot ≠ some slot → s'.stored slot = s.stored slot := by
    have hstep : step s (.closed ws)
        = some (s.modifySocket ws fun sock => { sock with readyState := .closed }) := by
      simp [step, react, hsock, hready]
    have hsockets := sockets_modifySocket (fun sock => { sock with readyState := .closed }) hsock
    obtain ⟨s', hrun, hsockets', hstored⟩ :=
      run_close ((congrFun hsockets ws).trans (Function.update_self ..)) hgone rfl
    refine ⟨_, s', { sock with readyState := .closed, gone := true }, .cons hstep hrun, ?_, rfl,
      hstored⟩
    rw [hsockets', hsockets, Function.update_idem]
  rcases hready : sock.readyState with - | - | -
  case «open» =>
    have hstep : step s (.closing ws)
        = some (s.modifySocket ws fun sock => { sock with readyState := .closing }) := by
      simp [step, react, hsock, hready]
    have hsockets := sockets_modifySocket (fun sock => { sock with readyState := .closing }) hsock
    obtain ⟨bs, s', sock', hrun, hsockets', hgone', hstored⟩ :=
      hclosing ((congrFun hsockets ws).trans (Function.update_self ..)) hgone rfl
    refine ⟨_, s', sock', .cons hstep hrun, ?_, hgone', hstored⟩
    rw [hsockets', hsockets, Function.update_idem]
  case closing => exact hclosing hsock hgone hready
  case closed =>
    obtain ⟨s', hrun, hsockets, hstored⟩ := run_close hsock hgone hready
    exact ⟨_, s', _, hrun, hsockets, rfl, hstored⟩

/-- The server has accepted finitely many sockets. -/
theorem sockets_finite {as : List Event} (h : Run step start as s) :
    ∃ l : List ℕ, ∀ ws, s.sockets ws ≠ none → ws ∈ l := by
  refine h.invariant (I := fun s => ∃ l : List ℕ, ∀ ws, s.sockets ws ≠ none → ws ∈ l)
    (fun s e s' hs h => ?_) ⟨[], fun _ h => absurd rfl h⟩
  obtain ⟨l, hl⟩ := hs
  -- a socket that is changed was there before
  have hchange {ws : ℕ} {sock : Socket} {sock' : Option Socket} (hsock : s.sockets ws = some sock)
      (hsockets : s'.sockets = Function.update s.sockets ws sock') :
      ∃ l : List ℕ, ∀ ws, s'.sockets ws ≠ none → ws ∈ l := by
    refine ⟨l, fun ws' hws' => hl ws' ?_⟩
    rw [hsockets] at hws'
    by_cases heq : ws' = ws
    · rw [heq, hsock]
      exact Option.some_ne_none sock
    · rwa [Function.update_of_ne heq] at hws'
  cases step_cases h with
  | @connect ws =>
    refine ⟨ws :: l, fun ws' hws' => ?_⟩
    by_cases heq : ws' = ws
    · exact List.mem_cons.mpr (Or.inl heq)
    · refine List.mem_cons_of_mem _ (hl ws' fun hnone => hws' ?_)
      exact (Function.update_of_ne heq ..).trans hnone
  | ignored _ hunmoved => exact ⟨l, fun ws hws => hl ws (by rwa [← hunmoved.sockets_eq])⟩
  | joined hsock _ hjoined => exact hchange hsock hjoined.sockets_eq
  | closing hsock => exact hchange hsock rfl
  | closed hsock => exact hchange hsock rfl
  | unplaced hsock => exact hchange hsock rfl
  | emptied hsock _ _ hemptied =>
    have hsockets := sockets_modifySocket (fun sock => { sock with gone := true })
      ((congrFun hemptied.sockets_eq _).trans hsock)
    rw [hemptied.sockets_eq] at hsockets
    exact hchange hsock hsockets

/-- All of them can leave, and what none of them will empty stays. -/
theorem run_allLeave (l : List ℕ) {slot : Slot}
    (hl : ∀ ws sock, s.sockets ws = some sock → sock.gone = false → ws ∈ l)
    (hsome : s.stored slot ≠ none) (hnobody : ∀ ws, ¬WillEmpty s ws slot) :
    ∃ bs s', Run step s bs s' ∧ AllGone s' ∧ s'.stored slot ≠ none := by
  induction l generalizing s with
  | nil =>
    refine ⟨[], s, .nil s, fun ws sock hsock _ => ?_, hsome⟩
    by_contra hgone
    exact List.not_mem_nil (hl ws sock hsock (Bool.eq_false_iff.mpr hgone))
  | cons ws l ih =>
    by_cases hpresent : ∃ sock, s.sockets ws = some sock ∧ sock.gone = false
    · obtain ⟨sock, hsock, hgone⟩ := hpresent
      obtain ⟨bs, s₁, sock₁, hrun, hsockets, hgone₁, hstored⟩ := run_leave hsock hgone
      have hsome₁ : s₁.stored slot ≠ none := by
        rw [hstored slot fun hslot => hnobody ws ⟨sock, hsock, hgone, hslot⟩]
        exact hsome
      have hkept {ws' : ℕ} {sock' : Socket} (hsock' : s₁.sockets ws' = some sock')
          (hgone' : sock'.gone = false) : ws' ≠ ws ∧ s.sockets ws' = some sock' := by
        rw [hsockets] at hsock'
        rcases sockets_update hsock' with ⟨-, rfl⟩ | hold
        · exact absurd (hgone'.symm.trans hgone₁) Bool.false_ne_true
        · exact hold
      obtain ⟨bs', s', hrun', h⟩ := @ih s₁ (fun ws' sock' hsock' hgone' => by
          obtain ⟨hne, hold⟩ := hkept hsock' hgone'
          exact (List.mem_cons.mp (hl ws' sock' hold hgone')).resolve_left hne) hsome₁
        fun ws' ⟨sock', hsock', hgone', hslot'⟩ =>
          hnobody ws' ⟨sock', (hkept hsock' hgone').2, hgone', hslot'⟩
      exact ⟨bs ++ bs', s', hrun.append hrun', h⟩
    · refine ih (fun ws' sock' hsock' hgone' => ?_) hsome hnobody
      refine (List.mem_cons.mp (hl ws' sock' hsock' hgone')).resolve_left ?_
      rintro rfl
      exact hpresent ⟨sock', hsock', hgone'⟩

/-- **Once a socket has moved on like that**, the others need only leave, and a room
is left. -/
theorem exists_leak {as : List Event} (hrun : Run step start as s) (hnot : ¬Leaves s e)
    (h : step s e = some s') : ∃ bs s'', Run step s' bs s'' ∧ ¬NoLeak s'' := by
  cases e with
  | message ws now parsed =>
    simp only [Leaves, not_forall, not_exists, not_and] at hnot
    obtain ⟨slot, slot', hclaimed, hne, -, hsome, hothers⟩ := hnot
    cases step_cases h with
    | ignored hnone =>
      rw [hnone] at hclaimed
      cases hclaimed
    | @joined _ _ _ _ sock _ hsock hclaimed' hjoined =>
      obtain rfl := Option.some.inj (hclaimed'.symm.trans hclaimed)
      have hsockets := hjoined.sockets_eq
      rw [hsock] at hsockets
      have hsome' : s'.stored slot ≠ none := by
        rw [hjoined.stored_eq, if_neg fun heq => hne heq.symm]
        exact hsome
      have hnobody : ∀ ws', ¬WillEmpty s' ws' slot := by
        rintro ws' ⟨sock', hsock', hgone, hslot⟩
        rw [hsockets] at hsock'
        rcases sockets_update hsock' with ⟨-, rfl⟩ | ⟨hother, hold⟩
        · exact hne (Option.some.inj hslot)
        · exact hothers ws' hother ⟨sock', hold, hgone, hslot⟩
      obtain ⟨l, hl⟩ := sockets_finite (hrun.snoc h)
      obtain ⟨bs, s'', hrun', hall, hleft⟩ := run_allLeave l (fun ws' sock' hsock' _ =>
        hl ws' (by rw [hsock']; exact Option.some_ne_none _)) hsome' hnobody
      refine ⟨bs, s'', hrun', fun hnoLeak => hleft ?_⟩
      rw [stored, hnoLeak hall]
      rfl
  | _ => exact absurd trivial hnot

/-! ### Two runs -/

theorem leaves_of_once (h : once s e = true) : Leaves s e := by
  cases e with
  | message ws now parsed =>
    rintro slot slot' hclaimed - ⟨sock, hsock, -, hslot⟩ -
    simp [once, hclaimed, hsock, hslot] at h
  | _ => trivial

/-- Two sockets meet in a room and leave it. -/
def visit : List Event :=
  [.connect 0, .message 0 0 (.join "sender" "studio"), .connect 1,
    .message 1 0 (.join "receiver" "studio"), .closing 0, .closed 0, .close 0, .closing 1,
    .closed 1, .close 1]

theorem noLeak_of_leaves_visit : ∃ s, Run step start visit s ∧ AllGone s ∧
    ∀ t room, s.rooms t room = none := by
  have hleaves : Along step Leaves start visit :=
    along_of_check (p := once) (fun _ _ => leaves_of_once) (by decide)
  obtain ⟨s, hrun, hall⟩ : ∃ s, Run step start visit s ∧ AllGone s := by
    refine ⟨_, .of_exec rfl, ?_⟩
    intro ws sock hsock hroom
    rcases ws with - | - | ws
    · obtain rfl := Option.some.inj hsock
      rfl
    · obtain rfl := Option.some.inj hsock
      rfl
    · cases hsock
  exact ⟨s, hrun, hall, noLeak_of_leaves hleaves visit [] s rfl hrun hall⟩

/-- A socket joins one room after the other, and leaves. -/
def wander : List Event :=
  [.connect 0, .message 0 0 (.join "sender" "studio"), .message 0 0 (.join "sender" "stage"),
    .closing 0, .closed 0, .close 0]

/-- The first room is left, with the socket that has gone. -/
theorem not_noLeak_wander : ∃ s, Run step start wander s ∧ ¬NoLeak s := by
  refine ⟨_, .of_exec rfl, fun h => ?_⟩
  have hempty := h ?_ .mono (.string "studio")
  · cases hempty
  · intro ws sock hsock hroom
    rcases ws with - | ws
    · obtain rfl := Option.some.inj hsock
      rfl
    · cases hsock

end AmbiRTC.Signaling
