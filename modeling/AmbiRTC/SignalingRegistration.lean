/-
AmbiRTC/SignalingRegistration.lean

Who is registered with the signaling server.  A socket that has joined is meant
to be the one in the slot its fields name for as long as it is OPEN.

The slot of a socket that is no longer OPEN is given away, and the close event
of that socket, when it comes, empties the slot nevertheless.  That is the only
way to lose a registration:

    registered_iff :
      Throughout step Registered start as ↔ Along step Unshared start as
-/
import AmbiRTC.SignalingSlots

namespace AmbiRTC.Signaling

open Runs Server

/-- Every OPEN socket with a room is in the slot its fields name. -/
def Registered (s : Server) : Prop :=
  ∀ ws sock, s.sockets ws = some sock → sock.readyState = .open → sock.room ≠ none →
    ∃ slot, sock.slot = some slot ∧ s.stored slot = some ws

/-- No OPEN socket names the slot of the socket whose close event it is. -/
def Unshared (s : Server) : Event → Prop
  | .close ws => ∀ sock slot, s.sockets ws = some sock → sock.slot = some slot →
      ∀ ws' sock', s.sockets ws' = some sock' → sock'.readyState = .open →
        sock'.slot ≠ some slot
  | _ => True

/-- The three fields of a socket are filled in together. -/
def Named (s : Server) : Prop :=
  ∀ ws sock, s.sockets ws = some sock → sock.room ≠ none → sock.slot ≠ none

/-- The OPEN sockets are in the slots they name. -/
def Placed (s : Server) : Prop :=
  ∀ ws sock slot, s.sockets ws = some sock → sock.readyState = .open → sock.slot = some slot →
    s.stored slot = some ws

theorem Named.registered_iff_placed {s : Server} (hs : Named s) : Registered s ↔ Placed s := by
  constructor
  · intro h ws sock slot hsock hopen hslot
    have hroom : sock.room ≠ none := by
      rw [(Socket.slot_eq_some.mp hslot).2.1]
      exact Option.some_ne_none _
    obtain ⟨slot', hslot', hstored⟩ := h ws sock hsock hopen hroom
    obtain rfl := Option.some.inj (hslot.symm.trans hslot')
    exact hstored
  · intro h ws sock hsock hopen hroom
    obtain ⟨slot, hslot⟩ := Option.ne_none_iff_exists'.mp (hs ws sock hsock hroom)
    exact ⟨slot, hslot, h ws sock slot hsock hopen hslot⟩

/-! ### Steps -/

variable {s s' : Server} {e : Event}

/-- A socket looked up after one of them has changed. -/
theorem sockets_update {sockets : ℕ → Option Socket} {ws ws' : ℕ} {sock sock' : Socket}
    (h : Function.update sockets ws (some sock) ws' = some sock') :
    (ws' = ws ∧ sock' = sock) ∨ (ws' ≠ ws ∧ sockets ws' = some sock') := by
  by_cases hws : ws' = ws
  · subst hws
    rw [Function.update_self] at h
    exact Or.inl ⟨rfl, (Option.some.inj h).symm⟩
  · rw [Function.update_of_ne hws] at h
    exact Or.inr ⟨hws, h⟩

/-- Named is kept by changes that leave the fields alone or fill them all in. -/
theorem Named.update (hs : Named s) {ws : ℕ} {sock : Socket}
    (hsockets : s'.sockets = Function.update s.sockets ws (some sock))
    (hsock : sock.room ≠ none → sock.slot ≠ none) : Named s' := by
  intro ws' sock' hsock' hroom
  rw [hsockets] at hsock'
  rcases sockets_update hsock' with ⟨-, rfl⟩ | ⟨-, hold⟩
  · exact hsock hroom
  · exact hs ws' sock' hold hroom

theorem Named.kept (hs : Named s) (h : step s e = some s') : Named s' := by
  cases step_cases h with
  | connect => exact hs.update rfl fun hroom => absurd rfl hroom
  | ignored _ hunmoved =>
    intro ws sock hsock
    rw [hunmoved.sockets_eq] at hsock
    exact hs ws sock hsock
  | @joined _ _ _ _ _ slot hsock _ hjoined =>
    have hsockets := hjoined.sockets_eq
    rw [hsock] at hsockets
    exact hs.update hsockets fun _ => Option.some_ne_none slot
  | @closing ws sock hsock => exact hs.update (sockets_modifySocket _ hsock) (hs ws sock hsock)
  | @closed ws sock hsock => exact hs.update (sockets_modifySocket _ hsock) (hs ws sock hsock)
  | @unplaced ws sock hsock => exact hs.update (sockets_modifySocket _ hsock) (hs ws sock hsock)
  | @emptied ws sock _ _ hsock _ _ hempty =>
    have hsockets := sockets_modifySocket (fun sock => { sock with gone := true })
      ((congrFun hempty.sockets_eq _).trans hsock)
    rw [hempty.sockets_eq] at hsockets
    exact hs.update hsockets (hs ws sock hsock)

/-- Placed is kept by a change that opens no socket and empties no slot. -/
theorem Placed.update (hs : Placed s) {ws : ℕ} {sock : Socket}
    (hsockets : s'.sockets = Function.update s.sockets ws (some sock))
    (hstored : ∀ slot, s'.stored slot = s.stored slot)
    (hsock : sock.readyState = .open → sock.slot = none) : Placed s' := by
  intro ws' sock' slot hsock' hopen hslot
  rw [hsockets] at hsock'
  rw [hstored]
  rcases sockets_update hsock' with ⟨-, rfl⟩ | ⟨-, hold⟩
  · rw [hsock hopen] at hslot
    cases hslot
  · exact hs ws' sock' slot hold hopen hslot

/-- Whoever is OPEN and names a slot keeps others from joining it. -/
theorem Placed.taken (hs : Placed s) {ws : ℕ} {sock : Socket} {slot : Slot}
    (hsock : s.sockets ws = some sock) (hopen : sock.readyState = .open)
    (hslot : sock.slot = some slot) : s.taken slot = true := by
  rw [Server.taken, hs ws sock slot hsock hopen hslot]
  simp [isOpen, hsock, hopen]

theorem Placed.joined (hs : Placed s) {ws : ℕ} {sock : Socket} {slot : Slot}
    (hsock : s.sockets ws = some sock) (h : Joined s s' ws slot) : Placed s' := by
  have hsockets := h.sockets_eq
  rw [hsock, Option.map_some] at hsockets
  intro ws' sock' slot' hsock' hopen hslot
  rw [hsockets] at hsock'
  rw [h.stored_eq]
  rcases sockets_update hsock' with ⟨rfl, rfl⟩ | ⟨-, hold⟩
  · rw [if_pos (Option.some.inj hslot).symm]
  · rw [if_neg, hs ws' sock' slot' hold hopen hslot]
    rintro rfl
    have htaken := hs.taken hold hopen hslot
    rw [h.free] at htaken
    cases htaken

/-- Emptying a slot keeps `Placed` just if no OPEN socket names it. -/
theorem Placed.emptied_iff (hs : Placed s) {ws : ℕ} {sock : Socket} {slot : Slot} {s₁ : Server}
    (hsock : s.sockets ws = some sock) (hclosed : sock.readyState = .closed)
    (hslot : sock.slot = some slot) (h : Emptied s s₁ slot) :
    Placed (s₁.modifySocket ws fun sock => { sock with gone := true })
      ↔ Unshared s (.close ws) := by
  have hsockets := sockets_modifySocket (fun sock => { sock with gone := true })
    ((congrFun h.sockets_eq _).trans hsock)
  rw [h.sockets_eq] at hsockets
  constructor
  · intro hplaced sock₁ slot₁ hsock₁ hslot₁ ws' sock' hsock' hopen hslot'
    obtain rfl := Option.some.inj (hsock.symm.trans hsock₁)
    obtain rfl := Option.some.inj (hslot.symm.trans hslot₁)
    have hne : ws' ≠ ws := by
      rintro rfl
      obtain rfl := Option.some.inj (hsock.symm.trans hsock')
      rw [hclosed] at hopen
      cases hopen
    have hstored := hplaced ws' sock' slot
      (by rw [hsockets, Function.update_of_ne hne, hsock']) hopen hslot'
    rw [stored_modifySocket, h.stored_eq, if_pos rfl] at hstored
    cases hstored
  · intro hunshared ws' sock' slot' hsock' hopen hslot'
    rw [hsockets] at hsock'
    rw [stored_modifySocket, h.stored_eq]
    rcases sockets_update hsock' with ⟨-, rfl⟩ | ⟨-, hold⟩
    · rw [hclosed] at hopen
      cases hopen
    · rw [if_neg, hs ws' sock' slot' hold hopen hslot']
      rintro rfl
      exact hunshared sock slot' hsock hslot ws' sock' hold hopen hslot'

/-- **One event.**  It keeps the OPEN sockets in their slots just if it is not the
close event of a socket whose slot one of them has taken over. -/
theorem Placed.step_iff (hs : Placed s) (h : step s e = some s') :
    Placed s' ↔ Unshared s e := by
  cases step_cases h with
  | connect hnew =>
    exact iff_of_true (hs.update rfl (fun _ => rfl) fun _ => rfl) trivial
  | ignored _ hunmoved =>
    refine iff_of_true (fun ws sock slot hsock => ?_) trivial
    rw [hunmoved.sockets_eq] at hsock
    rw [hunmoved.stored_eq]
    exact hs ws sock slot hsock
  | joined hsock _ hjoined => exact iff_of_true (hs.joined hsock hjoined) trivial
  | closing hsock =>
    exact iff_of_true (hs.update (sockets_modifySocket _ hsock) (stored_modifySocket _ _)
      fun hopen => nomatch hopen) trivial
  | closed hsock =>
    exact iff_of_true (hs.update (sockets_modifySocket _ hsock) (stored_modifySocket _ _)
      fun hopen => nomatch hopen) trivial
  | unplaced hsock hclosed hslot =>
    refine iff_of_true (hs.update (sockets_modifySocket _ hsock) (stored_modifySocket _ _)
      fun _ => hslot) fun sock slot hsock' hslot' => ?_
    obtain rfl := Option.some.inj (hsock.symm.trans hsock')
    rw [hslot] at hslot'
    cases hslot'
  | emptied hsock hclosed hslot hempty => exact hs.emptied_iff hsock hclosed hslot hempty

/-! ### Runs -/

theorem named_start : Named start := by
  intro ws sock hsock
  cases hsock

theorem placed_start : Placed start := by
  intro ws sock slot hsock
  cases hsock

theorem Named.kept_run {as : List Event} (h : Run step s as s') (hs : Named s) : Named s' :=
  h.invariant (fun _ _ _ hs h => hs.kept h) hs

/-- **Registrations last** in just the runs where no close event is handled after
an OPEN socket has taken over the slot of the closed one. -/
theorem registered_iff {as : List Event} (h : Run step start as s) :
    Throughout step Registered start as ↔ Along step Unshared start as := by
  constructor
  · intro hall as₁ e as₂ s₁ has hrun
    obtain ⟨s₂, hrun', hrest⟩ := run_append_iff.mp (has ▸ h)
    obtain ⟨s₃, hstep, -⟩ := run_cons_iff.mp hrest
    obtain rfl := hrun'.unique hrun
    have hs := (named_start.kept_run hrun).registered_iff_placed.mp
      (hall as₁ (e :: as₂) s₂ has hrun)
    have hrun₃ := hrun.snoc hstep
    have hs' := (named_start.kept_run hrun₃).registered_iff_placed.mp
      (hall (as₁ ++ [e]) as₂ s₃ (by rw [has]; simp) hrun₃)
    exact (hs.step_iff hstep).mp hs'
  · intro hP as₁ as₂ s₁ has hrun
    refine (named_start.kept_run hrun).registered_iff_placed.mpr ?_
    exact throughout_of_along (fun _ _ _ hs hP h => (hs.step_iff h).mpr hP) hP placed_start
      as₁ as₂ s₁ has hrun

/-- One sender leaves and another takes its place. -/
def handover : List Event :=
  [.connect 0, .message 0 0 (.join "sender" "studio"), .closing 0, .closed 0, .close 0,
    .connect 1, .message 1 0 (.join "sender" "studio")]

theorem registered_iff_handover : ∃ s, Run step start handover s ∧
    (Throughout step Registered start handover ↔ Along step Unshared start handover) := by
  obtain ⟨s, hs⟩ := Option.isSome_iff_exists.mp
    (by decide : (exec step start handover).isSome = true)
  exact ⟨s, .of_exec hs, registered_iff (.of_exec hs)⟩

/-- The other sender joins before the close event of the first is delivered. -/
def takeover : List Event :=
  [.connect 0, .message 0 0 (.join "sender" "studio"), .closing 0, .connect 1,
    .message 1 0 (.join "sender" "studio"), .closed 0, .close 0]

/-- The second sender is OPEN and in no slot. -/
theorem not_registered_takeover : ∃ s, Run step start takeover s ∧ ¬Registered s := by
  obtain ⟨s, hs, hlost⟩ := (Option.any_eq_true _ _).mp
    (by decide : (exec step start takeover).any (fun s =>
      s.sockets 1 = some ⟨.open, some (.string "studio"), some .sender, some .mono, false⟩ ∧
        s.stored ⟨.mono, .string "studio", .sender⟩ = none) = true)
  obtain ⟨hsock, hstored⟩ := of_decide_eq_true hlost
  refine ⟨s, .of_exec hs, fun h => ?_⟩
  obtain ⟨slot, hslot, hfound⟩ := h 1 _ hsock rfl (by simp)
  obtain rfl := Option.some.inj hslot
  rw [hstored] at hfound
  cases hfound

end AmbiRTC.Signaling
