/-
AmbiRTC/SignalingRelay.lean

Whom the signaling server relays to.  An offer, answer or candidate goes to the
socket in the slot opposite the one its sender's fields name, and that socket is
meant to name that slot itself.

A socket that joins again keeps the slot it had, so the one in a slot may name
another.  Where no OPEN socket is given a slot while it is still in one, nobody
does, and what is relayed stays between peers:

    confined_of_fresh :  Along step Fresh start as → Along step Confined start as
-/
import AmbiRTC.SignalingSlots

namespace AmbiRTC.Signaling

open Runs Server

/-- What the event relays goes from a socket to another, in the same room of the
same family and of the opposite role. -/
def Confined (s : Server) (e : Event) : Prop :=
  ∀ s' out target body, react s e = some (s', out) → (target, Reply.relayed body) ∈ out →
    ∃ ws now parsed sock sock' slot, e = .message ws now parsed ∧ target ≠ ws ∧
      s.sockets ws = some sock ∧ sock.slot = some slot ∧
      s.sockets target = some sock' ∧ sock'.slot = some slot.opposite

/-- No OPEN socket is given a slot while it is in one. -/
def Fresh (s : Server) : Event → Prop
  | .message ws _ parsed => (s.claimed parsed).isSome → s.isOpen ws = true →
      ∀ slot, s.stored slot ≠ some ws
  | _ => True

/-- Whoever is in a slot has `P`. -/
def Held (P : Slot → Socket → Prop) (s : Server) : Prop :=
  ∀ slot ws, s.stored slot = some ws → ∃ sock, s.sockets ws = some sock ∧ P slot sock

/-- A socket that names the slot, if OPEN. -/
def Names (slot : Slot) (sock : Socket) : Prop := sock.readyState = .open → sock.slot = some slot

/-! ### What is relayed -/

variable {s s' : Server} {e : Event}

theorem mem_send {ws target : ℕ} {reply reply' : Reply} :
    (target, reply) ∈ s.send ws reply' ↔ s.isOpen ws = true ∧ target = ws ∧ reply = reply' := by
  unfold send
  split <;> simp_all

/-- Nothing is relayed. -/
def Quiet (out : List (ℕ × Reply)) : Prop :=
  ∀ target body, (target, Reply.relayed body) ∉ out

theorem quiet_nil : Quiet [] := fun _ _ h => nomatch h

theorem quiet_send {ws : ℕ} {reply : Reply} (h : ∀ body, reply ≠ .relayed body) :
    Quiet (s.send ws reply) := by
  intro target body hmem
  exact h body (mem_send.mp hmem).2.2.symm

theorem Quiet.append {out out' : List (ℕ × Reply)} (h : Quiet out) (h' : Quiet out') :
    Quiet (out ++ out') := by
  intro target body hmem
  exact (List.mem_append.mp hmem).elim (h target body) (h' target body)

/-- A peer is told it is ready, if there is one. -/
theorem quiet_peerReady {peer : Option ℕ} :
    Quiet (match peer with
      | some peer => s.send peer .peerReady
      | none => []) := by
  cases peer
  · exact quiet_nil
  · exact quiet_send (by simp)

/-- A `join` is answered, not relayed. -/
theorem quiet_join {ws now : ℕ} {msg : Message} {out : List (ℕ × Reply)}
    (h : s.join ws now msg = .ok (s', out)) : Quiet out := by
  unfold join at h
  split at h
  · obtain ⟨-, rfl⟩ := Prod.mk.inj (Except.ok.inj h)
    exact quiet_send (by simp)
  simp only at h
  split at h
  · obtain ⟨-, rfl⟩ := Prod.mk.inj (Except.ok.inj h)
    exact quiet_send (by simp)
  split at h
  · split at h
    · cases h
    · obtain ⟨-, rfl⟩ := Prod.mk.inj (Except.ok.inj h)
      exact quiet_send (by simp)
  obtain ⟨-, h⟩ := sendValue_bind_eq_ok.mp h
  split at h
  · cases h
  obtain ⟨-, rfl⟩ := Prod.mk.inj (Except.ok.inj h)
  apply (quiet_send (by simp)).append
  split
  · exact quiet_peerReady
  split
  · exact quiet_send (by simp)
  · exact quiet_nil

theorem quiet_joinNode {ws now : ℕ} {msg : Message} {out : List (ℕ × Reply)}
    (h : s.joinNode ws now msg = .ok (s', out)) : Quiet out := by
  unfold joinNode at h
  split at h
  · obtain ⟨-, rfl⟩ := Prod.mk.inj (Except.ok.inj h)
    exact quiet_send (by simp)
  simp only at h
  split at h
  · split at h
    · cases h
    · obtain ⟨-, rfl⟩ := Prod.mk.inj (Except.ok.inj h)
      exact quiet_send (by simp)
  obtain ⟨-, h⟩ := sendValue_bind_eq_ok.mp h
  split at h
  · cases h
  obtain ⟨-, rfl⟩ := Prod.mk.inj (Except.ok.inj h)
  apply (quiet_send (by simp)).append
  split
  · exact quiet_peerReady
  split
  · exact quiet_send (by simp)
  · exact quiet_nil

/-- A closing socket's peer is told so, and nothing is relayed. -/
theorem quiet_handleClose {ws : ℕ} : Quiet (s.handleClose ws).2 := by
  have hpeer : ∀ peer : Option ℕ, Quiet (match peer with
      | some peer => s.send peer .peerDisconnected
      | none => []) := by
    intro peer
    cases peer
    · exact quiet_nil
    · exact quiet_send (by simp)
  unfold handleClose
  split
  · exact quiet_nil
  split
  · split
    · exact quiet_nil
    · simp only
      split
      · exact hpeer _
      · exact hpeer _
  · exact quiet_nil

/-- What is relayed goes to the OPEN socket in the opposite slot. -/
theorem relayed_relay {ws target : ℕ} {msg : Message} {body : String} {out : List (ℕ × Reply)}
    (h : s.relay ws msg = .ok out) (hmem : (target, Reply.relayed body) ∈ out) :
    ∃ sock slot, s.sockets ws = some sock ∧ sock.slot = some slot ∧
      s.stored slot.opposite = some target ∧ s.isOpen target = true := by
  unfold relay at h
  split at h
  · obtain rfl := Except.ok.inj h
    cases hmem
  rename_i sock hsock
  split at h
  case h_2 =>
    obtain rfl := Except.ok.inj h
    cases hmem
  rename_i t room role ht hroom hrole
  refine ⟨sock, ⟨t, room, role⟩, hsock, Socket.slot_eq_some.mpr ⟨ht, hroom, hrole⟩, ?_⟩
  split at h
  · obtain rfl := Except.ok.inj h
    cases hmem
  rename_i slots hslots
  simp only at h
  split at h
  · rename_i target' htarget
    split at h
    · obtain ⟨-, rfl⟩ := sendValue_eq_ok.mp h
      obtain ⟨hopen, rfl, -⟩ := mem_send.mp hmem
      refine ⟨?_, hopen⟩
      simp only [stored, Slot.opposite, hslots, Option.bind_some, htarget]
    · obtain rfl := Except.ok.inj h
      cases (mem_send.mp hmem).2.2
  · obtain rfl := Except.ok.inj h
    cases (mem_send.mp hmem).2.2

theorem relayed_handleMessage {ws now target : ℕ} {parsed : Parsed} {out : List (ℕ × Reply)}
    {body : String} (h : s.handleMessage ws now parsed = .ok (s', out))
    (hmem : (target, Reply.relayed body) ∈ out) :
    ∃ sock slot, s.sockets ws = some sock ∧ sock.slot = some slot ∧
      s.stored slot.opposite = some target ∧ s.isOpen target = true := by
  unfold handleMessage at h
  split at h
  · obtain ⟨-, rfl⟩ := Prod.mk.inj (Except.ok.inj h)
    cases (mem_send.mp hmem).2.2
  · cases h
  · split at h
    case h_1 => exact absurd hmem (quiet_join h target body)
    case h_2 => exact absurd hmem (quiet_joinNode h target body)
    case h_6 =>
      split at h
      · cases h
      · obtain ⟨-, rfl⟩ := Prod.mk.inj (Except.ok.inj h)
        cases (mem_send.mp hmem).2.2
    all_goals exact relayed_relay (map_eq_ok.mp h).1 hmem

theorem relayed_react {out : List (ℕ × Reply)} {target : ℕ} {body : String}
    (h : react s e = some (s', out)) (hmem : (target, Reply.relayed body) ∈ out) :
    ∃ ws now parsed sock slot, e = .message ws now parsed ∧ s.sockets ws = some sock ∧
      sock.slot = some slot ∧ s.stored slot.opposite = some target ∧
      s.isOpen target = true := by
  cases e with
  | message ws now parsed =>
    obtain ⟨-, heq⟩ := Option.ite_none_right_eq_some.mp h
    cases hm : s.handleMessage ws now parsed with
    | error e =>
      rw [hm] at heq
      cases heq
    | ok r =>
      rw [hm] at heq
      obtain rfl := Option.some.inj heq
      obtain ⟨sock, slot, hrelay⟩ := relayed_handleMessage hm hmem
      exact ⟨ws, now, parsed, sock, slot, rfl, hrelay⟩
  | close ws =>
    obtain ⟨-, heq⟩ := Option.ite_none_right_eq_some.mp h
    obtain ⟨-, rfl⟩ := Prod.mk.inj (Option.some.inj heq)
    exact absurd hmem (quiet_handleClose target body)
  | connect ws =>
    obtain ⟨-, heq⟩ := Option.ite_none_right_eq_some.mp h
    obtain ⟨-, rfl⟩ := Prod.mk.inj (Option.some.inj heq)
    cases hmem
  | closing ws =>
    obtain ⟨-, heq⟩ := Option.ite_none_right_eq_some.mp h
    obtain ⟨-, rfl⟩ := Prod.mk.inj (Option.some.inj heq)
    cases hmem
  | closed ws =>
    obtain ⟨-, heq⟩ := Option.ite_none_right_eq_some.mp h
    obtain ⟨-, rfl⟩ := Prod.mk.inj (Option.some.inj heq)
    cases hmem

theorem Slot.opposite_ne (slot : Slot) : slot.opposite ≠ slot := by
  intro h
  exact getOppositeRole_ne slot.role (congrArg Slot.role h)

/-- Where everybody in a slot names it, peers only hear of each other. -/
theorem Held.confined (hs : Held Names s) : Confined s e := by
  intro s' out target body hreact hmem
  obtain ⟨ws, now, parsed, sock, slot, rfl, hsock, hslot, hstored, hopen⟩ :=
    relayed_react hreact hmem
  obtain ⟨sock', hsock', hnames⟩ := hs _ _ hstored
  have hslot' := hnames (by simpa [isOpen, hsock'] using hopen)
  refine ⟨ws, now, parsed, sock, sock', slot, rfl, ?_, hsock, hslot, hsock', hslot'⟩
  rintro rfl
  obtain rfl := Option.some.inj (hsock.symm.trans hsock')
  exact slot.opposite_ne (Option.some.inj (hslot'.symm.trans hslot))

/-! ### Who is in a slot -/

variable {P : Slot → Socket → Prop}

/-- What a socket keeps while its slot stays the same and it does not open. -/
def Stable (P : Slot → Socket → Prop) : Prop :=
  ∀ slot sock sock', P slot sock → sock'.slot = sock.slot →
    (sock'.readyState = .open → sock.readyState = .open) → P slot sock'

theorem Held.connect (hs : Held P s) {ws : ℕ} (hnew : s.sockets ws = none) :
    Held P { s with sockets := Function.update s.sockets ws (some newSocket) } := by
  intro slot ws' hws'
  obtain ⟨sock, hsock, hkept⟩ := hs slot ws' hws'
  refine ⟨sock, ?_, hkept⟩
  show Function.update s.sockets ws (some newSocket) ws' = some sock
  rw [Function.update_of_ne, hsock]
  rintro rfl
  rw [hnew] at hsock
  cases hsock

/-- A socket changes and nobody new is in a slot, but for that socket. -/
theorem Held.update (hs : Held P s) {ws : ℕ} {sock' : Socket}
    (hsockets : s'.sockets = Function.update s.sockets ws (some sock'))
    (hstored : ∀ slot ws', s'.stored slot = some ws' → ws' ≠ ws → s.stored slot = some ws')
    (hws : ∀ slot, s'.stored slot = some ws → P slot sock') : Held P s' := by
  intro slot ws' hws'
  rw [hsockets]
  by_cases heq : ws' = ws
  · subst heq
    exact ⟨sock', Function.update_self .., hws slot hws'⟩
  · obtain ⟨sock, hsock, hkept⟩ := hs slot ws' (hstored slot ws' hws' heq)
    exact ⟨sock, (Function.update_of_ne heq ..).trans hsock, hkept⟩

/-- A socket is changed in a way `P` survives. -/
theorem Held.modify (hs : Held P s) (hP : Stable P) {ws : ℕ} {sock sock' : Socket}
    (hsock : s.sockets ws = some sock)
    (hsockets : s'.sockets = Function.update s.sockets ws (some sock'))
    (hstored : ∀ slot ws', s'.stored slot = some ws' → s.stored slot = some ws')
    (hslot : sock'.slot = sock.slot)
    (hopen : sock'.readyState = .open → sock.readyState = .open) : Held P s' := by
  refine hs.update hsockets (fun slot ws' hws' _ => hstored slot ws' hws') fun slot hws' => ?_
  obtain ⟨sock₁, hsock₁, hkept⟩ := hs slot ws (hstored slot ws hws')
  obtain rfl := Option.some.inj (hsock.symm.trans hsock₁)
  exact hP slot sock sock' hkept hslot hopen

/-- A step keeps what the socket of a message still has under the name it joins by. -/
theorem Held.kept (hs : Held P s) (hP : Stable P) (h : step s e = some s')
    (hjoin : ∀ ws now parsed sock slot, e = .message ws now parsed →
      s.claimed parsed = some slot → s.sockets ws = some sock →
      ∀ slot', slot' = slot ∨ s.stored slot' = some ws → P slot' (sock.name slot)) :
    Held P s' := by
  cases step_cases h with
  | connect hnew => exact hs.connect hnew
  | ignored _ hunmoved =>
    intro slot ws hws
    rw [hunmoved.stored_eq] at hws
    rw [hunmoved.sockets_eq]
    exact hs slot ws hws
  | @joined ws _ _ _ sock slot hsock hclaimed hjoined =>
    have hsockets := hjoined.sockets_eq
    rw [hsock, Option.map_some] at hsockets
    refine hs.update hsockets (fun slot' ws' hws' hne => ?_) fun slot' hws' => ?_
    -- the other slots are as they were; the claimed one holds the socket that joins
    · rw [hjoined.stored_eq] at hws'
      split at hws'
      · exact absurd (Option.some.inj hws').symm hne
      · exact hws'
    · apply hjoin _ _ _ sock slot rfl hclaimed hsock
      rw [hjoined.stored_eq] at hws'
      split at hws'
      · exact Or.inl ‹_›
      · exact Or.inr hws'
  -- a socket that closes only loses slots
  | closing hsock =>
    exact hs.modify hP hsock (sockets_modifySocket _ hsock) (fun _ _ hws => hws) rfl
      fun hopen => nomatch hopen
  | closed hsock =>
    exact hs.modify hP hsock (sockets_modifySocket _ hsock) (fun _ _ hws => hws) rfl
      fun hopen => nomatch hopen
  | unplaced hsock =>
    exact hs.modify hP hsock (sockets_modifySocket _ hsock) (fun _ _ hws => hws) rfl
      fun hopen => hopen
  | emptied hsock _ _ hempty =>
    have hsockets := sockets_modifySocket (fun sock => { sock with gone := true })
      ((congrFun hempty.sockets_eq _).trans hsock)
    rw [hempty.sockets_eq] at hsockets
    refine hs.modify hP hsock hsockets (fun slot' ws' hws' => ?_) rfl fun hopen => hopen
    rw [stored_modifySocket, hempty.stored_eq] at hws'
    split at hws'
    · cases hws'
    · exact hws'

theorem held_start : Held P start := by
  intro slot ws h
  cases h

theorem stable_names : Stable Names := by
  intro slot sock sock' hnames hslot hopen hopen'
  rw [hslot]
  exact hnames (hopen hopen')

theorem Held.kept_names (hs : Held Names s) (hfresh : Fresh s e) (h : step s e = some s') :
    Held Names s' := by
  refine hs.kept stable_names h ?_
  rintro ws now parsed sock slot rfl hclaimed hsock slot' (rfl | hstored) hopen
  · exact Socket.slot_name sock slot'
  · -- an OPEN socket was in no slot, so this is not where it was
    exact absurd hstored (hfresh (by rw [hclaimed]; rfl) (by simpa [isOpen, hsock] using hopen) _)

/-! ### Runs -/

/-- **Relaying stays between peers** in every run where no OPEN socket is given a
slot while it is in one. -/
theorem confined_of_fresh {as : List Event} (hP : Along step Fresh start as) :
    Along step Confined start as := by
  rintro as₁ e as₂ s rfl hrun
  have hs : Held Names s := throughout_of_along (fun _ _ _ hs hP h => hs.kept_names hP h) hP
    held_start as₁ (e :: as₂) s rfl hrun
  exact hs.confined

/-- The event gives no slot to a socket that has joined before. -/
def once (s : Server) : Event → Bool
  | .message ws _ parsed =>
    (s.claimed parsed).isNone || (s.sockets ws).all fun sock => sock.slot = none
  | _ => true

theorem Held.fresh (hs : Held (fun _ sock => sock.slot ≠ none) s) (h : once s e = true) :
    Fresh s e := by
  cases e with
  | message ws now parsed =>
    intro hclaimed _ slot hstored
    obtain ⟨sock, hsock, hslot⟩ := hs slot ws hstored
    simp only [once, hsock, Option.all_some, Bool.or_eq_true, decide_eq_true_eq,
      Option.isNone_iff_eq_none] at h
    rcases h with hnone | hnone
    · rw [hnone] at hclaimed
      cases hclaimed
    · exact hslot hnone
  | _ => trivial

/-- In particular where nobody joins twice. -/
theorem along_fresh {as : List Event} (h : checkAlong step once start as = true) :
    Along step Fresh start as := by
  rintro as₁ e as₂ s rfl hrun
  have hs : Held (fun _ sock => sock.slot ≠ none) s := by
    refine hrun.invariant (fun s e s' hs h => hs.kept ?_ h ?_) held_start
    · intro _ sock sock' hne hslot _
      rwa [hslot]
    · intro _ _ _ sock slot _ _ _ _ _
      exact Option.some_ne_none slot
  exact hs.fresh (along_of_check (fun _ _ h => h) h as₁ e as₂ s rfl hrun)

theorem confined_of_fresh_pair : Along step Confined start
    [.connect 0, .message 0 0 (.join "sender" "studio"), .connect 1,
      .message 1 0 (.join "receiver" "studio"), .message 0 0 (.offer "sdp")] :=
  confined_of_fresh (along_fresh (by decide))

/-- A socket that joins a room twice, once in each role, is its own peer. -/
theorem not_confined_rejoin : ¬Along step Confined start
    [.connect 0, .message 0 0 (.join "sender" "studio"),
      .message 0 0 (.join "receiver" "studio"), .message 0 0 (.offer "sdp")] := by
  intro h
  obtain ⟨s, hs, hrelay⟩ := (Option.any_eq_true _ _).mp
    (by decide : (exec step start [.connect 0, .message 0 0 (.join "sender" "studio"),
      .message 0 0 (.join "receiver" "studio")]).any (fun s =>
        (react s (.message 0 0 (.offer "sdp"))).any fun r => (0, .relayed "sdp") ∈ r.2) = true)
  obtain ⟨r, hr, hmem⟩ := (Option.any_eq_true _ _).mp hrelay
  obtain ⟨ws, now, parsed, sock, sock', slot, heq, hne, -⟩ :=
    h _ _ [] s rfl (.of_exec hs) r.1 r.2 0 "sdp" hr (of_decide_eq_true hmem)
  cases heq
  exact hne rfl

end AmbiRTC.Signaling
