/-
AmbiRTC/TurnProvider.lean

The TURN credentials the MCU hands out (mcu/internal/turn/turn.go `Provider`, as
`startTURN` of mcu/cmd/mcu/main.go sets it up).  They are fetched once at the start, and
then a goroutine fetches new ones each time a ticker fires, a little before the old ones
expire.  Where a fetch fails the old ones are kept.

Times are in nanoseconds.  What Cloudflare answers, when, and how long the goroutine is
held up is up to the environment.

Main results: `servers_of_run`: what is served; `Timely.step`: how old it can be after
some failures; and from them `kept_fresh`.
-/
import AmbiRTC.MixTiming

namespace AmbiRTC.TurnProvider

open Runs
open MixTiming (second)

/-! ### An answer -/

/-- `webrtc.ICEServer`, with a password as its credential. -/
structure ICEServer where
  urls : List String
  username : String
  credential : String
  deriving DecidableEq

/-- What comes of a request. -/
inductive Response where
  /-- there is none, also for lack of time -/
  | failed (err : String)
  /-- neither 200 nor 201 -/
  | refused (code snippet : String)
  /-- the body is not JSON -/
  | unreadable (err : String)
  /-- its `iceServers` is neither an array of entries nor an entry -/
  | neither (array object : String)
  | array (entries : List ICEServer)
  | object (one : ICEServer)

/-- The errors of `Refresh`. -/
inductive RefreshError where
  | request (err : String)
  | status (code snippet : String)
  | decode (err : String)
  | decodeServers (array object : String)
  | noUrls

/-- The text of each error. -/
def RefreshError.text : RefreshError → String
  | .request err => err
  | .status code snippet => "cloudflare turn: status " ++ code ++ ": " ++ snippet
  | .decode err => "cloudflare turn: decode: " ++ err
  | .decodeServers array object =>
    "cloudflare turn: decode iceServers (array: " ++ array ++ "; object: " ++ object ++ ")"
  | .noUrls => "cloudflare turn: response had no urls"

/-- The entries `Refresh` keeps: those with a URL, if there are any. -/
def withUrls (entries : List ICEServer) : Except RefreshError (List ICEServer) :=
  match entries.filter fun e => !e.urls.isEmpty with
  | [] => .error .noUrls
  | e :: es => .ok (e :: es)

/-- `Refresh`, up to storing the servers. -/
def refresh : Response → Except RefreshError (List ICEServer)
  | .failed err => .error (.request err)
  | .refused code snippet => .error (.status code snippet)
  | .unreadable err => .error (.decode err)
  | .neither array object => .error (.decodeServers array object)
  | .array entries => withUrls entries
  | .object one => withUrls [one]

/-- What `Refresh` stores is of use to a client. -/
theorem refresh_ok {r : Response} {servers : List ICEServer} (h : refresh r = .ok servers) :
    servers ≠ [] ∧ ∀ server ∈ servers, server.urls ≠ [] := by
  have hkept : ∀ entries, withUrls entries = .ok servers →
      servers ≠ [] ∧ ∀ server ∈ servers, server.urls ≠ [] := by
    intro entries h
    unfold withUrls at h
    split at h
    next => cases h
    next e es heq =>
      obtain rfl := Except.ok.inj h
      refine ⟨List.cons_ne_nil e es, fun server hmem => ?_⟩
      rw [← heq] at hmem
      simpa using (List.mem_filter.mp hmem).2
  cases r with
  | array entries => exact hkept entries h
  | object one => exact hkept [one] h
  | _ => cases h

/-! ### The provider -/

/-- `time.Minute` -/
def minute : ℕ := 60 * second

/-- The `ttl` of `NewCloudflare`. -/
def newTtl (ttl : ℤ) : ℕ := if ttl ≤ 0 then 180 * minute else ttl.toNat

/-- `interval`: nine tenths of the ttl, but at least a minute. -/
def interval (ttl : ℕ) : ℕ := if ttl - ttl / 10 < minute then minute else ttl - ttl / 10

/-- How long the credentials last that a request asks for: whole seconds. -/
def lifetime (ttl : ℕ) : ℕ := ttl / second * second

/-- Where the provider is. -/
inductive Phase where
  /-- in the first `Refresh`, of a request made at `since` -/
  | starting (since : ℤ)
  /-- `go prov.Run` was executed at `since`; there is no ticker yet -/
  | launched (since : ℤ)
  /-- `Run`, at its `select` -/
  | waiting
  /-- `Run`, in `Refresh` -/
  | refreshing (since : ℤ)
  | returned
  deriving DecidableEq

/-- A provider, its ticker, and on the side how old what it serves is. -/
structure State where
  now : ℤ
  servers : List ICEServer
  phase : Phase
  /-- when the ticker is due -/
  due : ℤ
  /-- the tick in the ticker's channel, by when it was due -/
  tick : Option ℤ
  /-- when the servers were asked for -/
  minted : Option ℤ
  /-- how many times `Refresh` has failed since -/
  failures : ℕ

/-- A provider in its first `Refresh`. -/
def start (now : ℤ) : State where
  now := now
  servers := []
  phase := .starting now
  due := now
  tick := none
  minted := none
  failures := 0

/-- `Refresh`, with what comes of the request made at `since`. -/
def State.store (s : State) (since : ℤ) (r : Response) : State :=
  match refresh r with
  | .ok servers => { s with servers := servers, minted := some since, failures := 0 }
  | .error _ => { s with failures := s.failures + 1 }

/-- What may happen next. -/
inductive Action where
  /-- time passes -/
  | wait (dt : ℕ)
  /-- the ticker fires -/
  | fire
  /-- `Run` receives from the ticker -/
  | receive
  | answer (r : Response)
  /-- `Run` calls `time.NewTicker` -/
  | newTicker
  /-- `ctx` is done -/
  | stop

/-- `Run` has made its ticker. -/
def Phase.ticking : Phase → Bool
  | .waiting | .refreshing _ => true
  | .starting _ | .launched _ | .returned => false

/-- One step. -/
def step (ttl : ℕ) (s : State) : Action → Option State
  | .wait dt => some { s with now := s.now + dt }
  | .fire =>
    -- a ticker that is late skips what it has missed, and its channel holds one tick
    if s.phase.ticking ∧ s.due ≤ s.now then
      some { s with
        due := s.due + interval ttl * (1 + (s.now - s.due) / interval ttl)
        tick := s.tick <|> some s.due }
    else none
  | .receive =>
    if s.phase = .waiting ∧ s.tick.isSome then
      some { s with phase := .refreshing s.now, tick := none }
    else none
  | .answer r =>
    match s.phase with
    | .starting since => some { s.store since r with phase := .launched s.now }
    | .refreshing since => some { s.store since r with phase := .waiting }
    | .launched _ | .waiting | .returned => none
  | .newTicker =>
    match s.phase with
    | .launched _ => some { s with phase := .waiting, due := s.now + interval ttl }
    | _ => none
  | .stop => if s.phase = .waiting then some { s with phase := .returned } else none

/-! ### What is served -/

variable {ttl : ℕ} {s s' : State} {a : Action}

/-- What an enabled step leaves. -/
inductive Stepped (ttl : ℕ) (s : State) : Action → State → Prop
  | wait (dt : ℕ) : Stepped ttl s (.wait dt) { s with now := s.now + dt }
  | fire (hphase : s.phase.ticking) (hdue : s.due ≤ s.now) :
      Stepped ttl s .fire
        { s with
          due := s.due + interval ttl * (1 + (s.now - s.due) / interval ttl)
          tick := s.tick <|> some s.due }
  | receive (d : ℤ) (hphase : s.phase = .waiting) (htick : s.tick = some d) :
      Stepped ttl s .receive { s with phase := .refreshing s.now, tick := none }
  | initial (since : ℤ) (hphase : s.phase = .starting since) (r : Response) :
      Stepped ttl s (.answer r) { s.store since r with phase := .launched s.now }
  | again (since : ℤ) (hphase : s.phase = .refreshing since) (r : Response) :
      Stepped ttl s (.answer r) { s.store since r with phase := .waiting }
  | newTicker (since : ℤ) (hphase : s.phase = .launched since) :
      Stepped ttl s .newTicker { s with phase := .waiting, due := s.now + interval ttl }
  | stop (hphase : s.phase = .waiting) : Stepped ttl s .stop { s with phase := .returned }

theorem step_cases (h : step ttl s a = some s') : Stepped ttl s a s' := by
  cases a with
  | wait dt =>
    obtain rfl := Option.some.inj h
    exact .wait dt
  | fire =>
    obtain ⟨⟨hphase, hdue⟩, h⟩ := Option.ite_none_right_eq_some.mp h
    obtain rfl := Option.some.inj h
    exact .fire hphase hdue
  | receive =>
    obtain ⟨⟨hphase, htick⟩, h⟩ := Option.ite_none_right_eq_some.mp h
    obtain rfl := Option.some.inj h
    obtain ⟨d, hd⟩ := Option.isSome_iff_exists.mp htick
    exact .receive d hphase hd
  | answer r =>
    simp only [step] at h
    split at h
    next since hphase =>
      obtain rfl := Option.some.inj h
      exact .initial since hphase r
    next since hphase =>
      obtain rfl := Option.some.inj h
      exact .again since hphase r
    all_goals cases h
  | newTicker =>
    simp only [step] at h
    split at h
    next since hphase =>
      obtain rfl := Option.some.inj h
      exact .newTicker since hphase
    next => cases h
  | stop =>
    obtain ⟨hphase, h⟩ := Option.ite_none_right_eq_some.mp h
    obtain rfl := Option.some.inj h
    exact .stop hphase

/-- The servers of the last answer that had some. -/
def latest (servers : List ICEServer) : List Action → List ICEServer
  | [] => servers
  | .answer r :: as => latest ((refresh r).toOption.getD servers) as
  | _ :: as => latest servers as

theorem servers_store (since : ℤ) (r : Response) :
    (s.store since r).servers = (refresh r).toOption.getD s.servers := by
  unfold State.store
  cases refresh r <;> rfl

theorem servers_of_run {as : List Action} (h : Run (step ttl) s as s') :
    s'.servers = latest s.servers as := by
  induction h with
  | nil s => rfl
  | @cons s s₁ s' a as ha _ ih =>
    rw [ih]
    cases step_cases ha with
    | initial since _ r | again since _ r =>
      show latest (s.store since r).servers as = _
      rw [servers_store]
      rfl
    | _ => rfl

/-- Nothing without a URL is served, and nothing before a first answer. -/
structure Ok (s : State) : Prop where
  urls : ∀ server ∈ s.servers, server.urls ≠ []
  empty : s.servers = [] ↔ s.minted = none

theorem ok_start (now : ℤ) : Ok (start now) where
  urls := fun _ h => by cases h
  empty := by simp [start]

theorem Ok.store (hs : Ok s) (since : ℤ) (r : Response) : Ok (s.store since r) := by
  unfold State.store
  split
  next servers hr =>
    obtain ⟨hne, hurls⟩ := refresh_ok hr
    exact { urls := hurls, empty := by simp [hne] }
  next => exact { hs with }

theorem Ok.step (hs : Ok s) (h : Stepped ttl s a s') : Ok s' := by
  cases h with
  | initial since _ r | again since _ r =>
    exact { urls := (hs.store since r).urls, empty := (hs.store since r).empty }
  | _ => exact { hs with }

/-! ### How old it is -/

variable {δ T : ℕ}

/-- When what the provider waits for is over. -/
def State.deadline (δ T : ℕ) (s : State) : Option ℤ :=
  match s.phase with
  | .starting since | .refreshing since => some (since + T)
  | .launched since => some (since + δ)
  | .waiting => s.tick.map (· + δ)
  | .returned => none

/-- A request takes at most `T`, and the ticker and the goroutine, also at its start, are at
most `δ` late. -/
def Prompt (δ T : ℕ) (s : State) : Action → Prop
  | .wait dt => (s.phase.ticking → s.now + dt ≤ s.due + δ) ∧
      ∀ d ∈ s.deadline δ T, s.now + dt ≤ d
  | _ => True

instance (s : State) (a : Action) : Decidable (Prompt δ T s a) :=
  match a with
  | .wait dt => inferInstanceAs (Decidable ((s.phase.ticking → s.now + dt ≤ s.due + δ) ∧
      ∀ d ∈ s.deadline δ T, s.now + dt ≤ d))
  | .fire | .receive | .answer _ | .newTicker | .stop => .isTrue trivial

theorem minute_le_interval : minute ≤ interval ttl := by
  unfold interval
  split
  · exact le_refl _
  · omega

/-- When the next request is due, after some failures: the ticker starts at most `T + δ`
after the first request. -/
def State.horizon (ttl δ T : ℕ) (s : State) (m : ℤ) : ℤ :=
  m + T + δ + (s.failures + 1) * interval ttl

/-- A prompt provider: where its ticker stands, and how long ago the servers were asked
for. -/
structure Timely (ttl δ T : ℕ) (s : State) : Prop where
  starting : ∀ since, s.phase = .starting since → since ≤ s.now ∧ s.now ≤ since + T ∧
    s.tick = none ∧ s.minted = none
  launched : ∀ since, s.phase = .launched since → since ≤ s.now ∧ s.now ≤ since + δ ∧
    s.tick = none ∧ ∀ m ∈ s.minted, since ≤ m + T
  ticking : s.phase.ticking → s.now ≤ s.due + δ
  idle : s.phase = .waiting → s.tick = none →
    ∀ m ∈ s.minted, s.due ≤ s.horizon ttl δ T m
  fired : s.phase = .waiting → ∀ d ∈ s.tick, d ≤ s.now ∧ s.now ≤ d + δ ∧
    s.due = d + interval ttl ∧ ∀ m ∈ s.minted, d ≤ s.horizon ttl δ T m
  refreshing : ∀ since, s.phase = .refreshing since → since ≤ s.now ∧ s.now ≤ since + T ∧
    s.tick = none ∧ since + T < s.due ∧ s.due ≤ since + interval ttl ∧
    ∀ m ∈ s.minted, s.due ≤ s.horizon ttl δ T m + interval ttl ∧ since ≤ s.horizon ttl δ T m + δ

theorem timely_start (now : ℤ) : Timely ttl δ T (start now) where
  starting := fun since h => by
    obtain rfl := Phase.starting.inj h
    exact ⟨le_refl _, Int.le_add_of_nonneg_right (Int.natCast_nonneg T), rfl, rfl⟩
  launched := fun _ h => by cases h
  ticking := fun h => by cases h
  idle := fun h => by cases h
  fired := fun h => by cases h
  refreshing := fun _ h => by cases h

/-- Time passes no further than the deadline of what is waited for. -/
theorem Timely.wait {dt : ℕ} (hs : Timely ttl δ T s) (hprompt : Prompt δ T s (.wait dt)) :
    Timely ttl δ T { s with now := s.now + dt } := by
  obtain ⟨hticking, hprompt⟩ := hprompt
  have hle : s.now ≤ s.now + dt := Int.le_add_of_nonneg_right (Int.natCast_nonneg dt)
  exact {
    -- time passes up to the deadline of what is awaited, and no further
    starting := fun since hphase => by
      obtain ⟨hsince, -, hrest⟩ := hs.starting since hphase
      have hdeadline : since + T ∈ s.deadline δ T := by
        rw [State.deadline, show s.phase = .starting since from hphase]
        rfl
      exact ⟨hsince.trans hle, hprompt _ hdeadline, hrest⟩
    launched := fun since hphase => by
      obtain ⟨hsince, -, hrest⟩ := hs.launched since hphase
      have hdeadline : since + δ ∈ s.deadline δ T := by
        rw [State.deadline, show s.phase = .launched since from hphase]
        rfl
      exact ⟨hsince.trans hle, hprompt _ hdeadline, hrest⟩
    ticking := hticking
    idle := hs.idle
    fired := fun hphase d hd => by
      obtain ⟨hfired, -, hrest⟩ := hs.fired hphase d hd
      have hdeadline : d + δ ∈ s.deadline δ T := by
        rw [State.deadline, show s.phase = .waiting from hphase]
        exact Option.mem_map_of_mem (· + (δ : ℤ)) hd
      exact ⟨hfired.trans hle, hprompt _ hdeadline, hrest⟩
    refreshing := fun since hphase => by
      obtain ⟨hsince, -, hrest⟩ := hs.refreshing since hphase
      have hdeadline : since + T ∈ s.deadline δ T := by
        rw [State.deadline, show s.phase = .refreshing since from hphase]
        rfl
      exact ⟨hsince.trans hle, hprompt _ hdeadline, hrest⟩ }

/-- A ticker that is at most `δ` late skips no tick, and finds its channel empty. -/
theorem Timely.fire (hs : Timely ttl δ T s) (hlong : (T + δ : ℤ) < interval ttl)
    (hphase : s.phase.ticking) (hdue : s.due ≤ s.now) :
    Timely ttl δ T { s with
      due := s.due + interval ttl * (1 + (s.now - s.due) / interval ttl)
      tick := s.tick <|> some s.due } := by
  have hT := Int.natCast_nonneg T
  have hnow := hs.ticking hphase
  -- a request does not last until the next tick, and no tick waits until the next
  have hwaiting : s.phase = .waiting := by
    cases hs' : s.phase with
    | waiting => rfl
    | refreshing since =>
      obtain ⟨-, hreq, -, hbefore, -⟩ := hs.refreshing since hs'
      linarith
    | _ => rw [hs'] at hphase; cases hphase
  have htick : s.tick = none := by
    rw [Option.eq_none_iff_forall_not_mem]
    intro d hd
    obtain ⟨-, hlate, hnext, -⟩ := hs.fired hwaiting d hd
    linarith
  have honce : s.due + interval ttl * (1 + (s.now - s.due) / interval ttl)
      = s.due + interval ttl := by
    rw [Int.ediv_eq_zero_of_lt (by linarith) (by linarith), add_zero, mul_one]
  rw [honce, htick]
  exact {
    starting := fun _ h => by cases h.symm.trans hwaiting
    launched := fun _ h => by cases h.symm.trans hwaiting
    ticking := fun _ => by
      show s.now ≤ s.due + interval ttl + δ
      linarith
    idle := fun _ h => by cases h
    fired := fun _ d hd => by
      obtain rfl : s.due = d := Option.some.inj hd
      exact ⟨hdue, hnow, rfl, hs.idle hwaiting htick⟩
    refreshing := fun _ h => by cases h.symm.trans hwaiting }

theorem Timely.receive {d : ℤ} (hs : Timely ttl δ T s) (hlong : (T + δ : ℤ) < interval ttl)
    (hphase : s.phase = .waiting) (htick : s.tick = some d) :
    Timely ttl δ T { s with phase := .refreshing s.now, tick := none } := by
  obtain ⟨hfired, hlate, hnext, hold⟩ := hs.fired hphase d htick
  exact {
    starting := fun _ h => by cases h
    launched := fun _ h => by cases h
    ticking := fun _ => hs.ticking (by rw [hphase]; rfl)
    idle := fun h => by cases h
    fired := fun h => by cases h
    refreshing := fun since h => by
      obtain rfl := Phase.refreshing.inj h
      refine ⟨le_refl _, Int.le_add_of_nonneg_right (Int.natCast_nonneg T), rfl, ?_, ?_,
        fun m hm => ?_⟩
      · show s.now + T < s.due
        linarith
      · show s.due ≤ s.now + interval ttl
        linarith
      · have hm := hold m hm
        show s.due ≤ s.horizon ttl δ T m + interval ttl ∧ s.now ≤ s.horizon ttl δ T m + δ
        constructor <;> linarith }

@[simp] theorem now_store (since : ℤ) (r : Response) : (s.store since r).now = s.now := by
  unfold State.store
  split <;> rfl

@[simp] theorem tick_store (since : ℤ) (r : Response) : (s.store since r).tick = s.tick := by
  unfold State.store
  split <;> rfl

@[simp] theorem due_store (since : ℤ) (r : Response) : (s.store since r).due = s.due := by
  unfold State.store
  split <;> rfl

/-- What is served after a request is what it brought, or as before. -/
theorem mem_minted_store {since m : ℤ} {r : Response} (h : m ∈ (s.store since r).minted) :
    m = since ∧ (s.store since r).failures = 0 ∨
      m ∈ s.minted ∧ (s.store since r).failures = s.failures + 1 := by
  unfold State.store at h ⊢
  split at h
  · exact Or.inl ⟨(Option.some.inj h).symm, rfl⟩
  · exact Or.inr ⟨h, rfl⟩

/-- The first request is over: what it brought is at most `T` old. -/
theorem Timely.initial {since : ℤ} (hs : Timely ttl δ T s) (hphase : s.phase = .starting since)
    (r : Response) : Timely ttl δ T { s.store since r with phase := .launched s.now } := by
  obtain ⟨-, hreq, htick, hminted⟩ := hs.starting since hphase
  exact {
    starting := fun _ h => by cases h
    launched := fun since' h => by
      obtain rfl := Phase.launched.inj h
      refine ⟨(now_store since r).symm.le, ?_, (tick_store since r).trans htick, fun m hm => ?_⟩
      · show (s.store since r).now ≤ s.now + δ
        rw [now_store]
        exact Int.le_add_of_nonneg_right (Int.natCast_nonneg δ)
      · rcases mem_minted_store hm with ⟨rfl, -⟩ | ⟨hm, -⟩
        · exact hreq
        · rw [hminted] at hm
          cases hm
    ticking := fun h => by cases h
    idle := fun h => by cases h
    fired := fun h => by cases h
    refreshing := fun _ h => by cases h }

/-- The first tick is due an interval after the ticker is made. -/
theorem Timely.newTicker {since : ℤ} (hs : Timely ttl δ T s) (hphase : s.phase = .launched since) :
    Timely ttl δ T { s with phase := .waiting, due := s.now + interval ttl } := by
  obtain ⟨-, hlate, htick, hminted⟩ := hs.launched since hphase
  have hinterval : (0 : ℤ) ≤ interval ttl := Int.natCast_nonneg _
  exact {
    starting := fun _ h => by cases h
    launched := fun _ h => by cases h
    ticking := fun _ => by
      show s.now ≤ s.now + interval ttl + δ
      linarith [Int.natCast_nonneg δ]
    idle := fun _ _ m hm => by
      have hfailures : (0 : ℤ) ≤ s.failures * interval ttl := by positivity
      have hm := hminted m hm
      show s.now + interval ttl ≤ m + T + δ + (s.failures + 1) * interval ttl
      linarith
    fired := fun _ d hd => by
      rw [show d ∈ s.tick ↔ _ from Iff.rfl, htick] at hd
      cases hd
    refreshing := fun _ h => by cases h }

/-- `Run` waits for the next tick, however the request has ended. -/
theorem Timely.again {since : ℤ} (hs : Timely ttl δ T s) (hphase : s.phase = .refreshing since)
    (r : Response) : Timely ttl δ T { s.store since r with phase := .waiting } := by
  obtain ⟨-, hreq, htick, hbefore, hdue, hold⟩ := hs.refreshing since hphase
  have hT := Int.natCast_nonneg T
  have hδ := Int.natCast_nonneg δ
  exact {
    starting := fun _ h => by cases h
    launched := fun _ h => by cases h
    ticking := fun _ => by
      show (s.store since r).now ≤ (s.store since r).due + δ
      rw [now_store, due_store]
      linarith
    idle := fun _ _ m hm => by
      show (s.store since r).due ≤ m + T + δ + ((s.store since r).failures + 1) * interval ttl
      rw [due_store]
      -- a good answer mints anew; a failed one adds an interval to the age of the old
      rcases mem_minted_store hm with ⟨rfl, hfailures⟩ | ⟨hm, hfailures⟩
      · rw [hfailures]
        push_cast
        linarith
      · have hdue := (hold m hm).1
        rw [hfailures]
        simp only [State.horizon] at hdue
        push_cast
        linarith
    fired := fun _ d hd => by
      rw [show d ∈ (s.store since r).tick ↔ _ from Iff.rfl, tick_store, htick] at hd
      cases hd
    refreshing := fun _ h => by cases h }

/-- **One step of a prompt provider.** -/
theorem Timely.step (hs : Timely ttl δ T s) (hfit : T + δ < minute) (hprompt : Prompt δ T s a)
    (h : Stepped ttl s a s') : Timely ttl δ T s' := by
  have hlong : (T + δ : ℤ) < interval ttl := by
    exact_mod_cast hfit.trans_le minute_le_interval
  cases h with
  | wait dt => exact hs.wait hprompt
  | fire hphase hdue => exact hs.fire hlong hphase hdue
  | receive d hphase htick => exact hs.receive hlong hphase htick
  | initial since hphase r => exact hs.initial hphase r
  | again since hphase r => exact hs.again hphase r
  | newTicker since hphase => exact hs.newTicker hphase
  | stop hphase =>
    exact {
      starting := fun _ h => by cases h
      launched := fun _ h => by cases h
      ticking := fun h => by cases h
      idle := fun h => by cases h
      fired := fun h => by cases h
      refreshing := fun _ h => by cases h }

/-- How old what is served can be. -/
theorem Timely.now_le (hs : Timely ttl δ T s) (hruns : s.phase ≠ .returned) {m : ℤ}
    (hm : m ∈ s.minted) : s.now ≤ m + (s.failures + 1) * interval ttl + 2 * T + 2 * δ := by
  have hT := Int.natCast_nonneg T
  have hδ := Int.natCast_nonneg δ
  -- whatever is awaited, the deadline is at most a request and a delay past the horizon
  suffices h : s.now ≤ s.horizon ttl δ T m + T + δ by
    simp only [State.horizon] at h
    linarith
  cases hphase : s.phase with
  | starting since =>
    obtain ⟨-, -, -, hminted⟩ := hs.starting since hphase
    rw [hminted] at hm
    cases hm
  | launched since =>
    obtain ⟨-, hlate, -, hminted⟩ := hs.launched since hphase
    have hintervals : (0 : ℤ) ≤ (s.failures + 1) * interval ttl := by positivity
    simp only [State.horizon]
    linarith [hminted m hm]
  | waiting =>
    have hticking : s.phase.ticking := by rw [hphase]; rfl
    cases htick : s.tick with
    | none => linarith [hs.ticking hticking, hs.idle hphase htick m hm]
    | some d =>
      obtain ⟨-, hlate, -, hold⟩ := hs.fired hphase d htick
      linarith [hold m hm]
  | refreshing since =>
    obtain ⟨-, hreq, -, -, -, hold⟩ := hs.refreshing since hphase
    linarith [(hold m hm).2]
  | returned => exact absurd hphase hruns

/-- A tenth of the ttl is enough to make up for what is late. -/
theorem interval_lt_lifetime (hlong : minute ≤ ttl - ttl / 10)
    (hslack : 2 * T + 2 * δ + second ≤ ttl / 10) :
    interval ttl + 2 * T + 2 * δ < lifetime ttl := by
  have hinterval : interval ttl = ttl - ttl / 10 := if_neg (Nat.not_lt.mpr hlong)
  have hwhole : ttl < lifetime ttl + second := by
    have hmod : ttl % second < second := Nat.mod_lt ttl (by simp [second])
    have hdiv := Nat.div_add_mod' ttl second
    rw [lifetime]
    omega
  omega

/-- **What is served.**  In every run it is what the last answer with a URL brought, each
server of it with a URL.  Where the provider is prompt, it is never older than an interval
for each failure since, and one more; so without failures it has not expired. -/
theorem kept_fresh {now : ℤ} {as : List Action} (hrun : Run (step ttl) (start now) as s) :
    s.servers = latest [] as
    ∧ (∀ server ∈ s.servers, server.urls ≠ [])
    ∧ (s.servers = [] ↔ s.minted = none)
    ∧ ∀ {δ T : ℕ}, T + δ < minute → Along (step ttl) (Prompt δ T) (start now) as →
        s.phase ≠ .returned → ∀ m ∈ s.minted,
          s.now ≤ m + (s.failures + 1) * interval ttl + 2 * T + 2 * δ
          ∧ (s.failures = 0 → minute ≤ ttl - ttl / 10 → 2 * T + 2 * δ + second ≤ ttl / 10 →
              s.now < m + lifetime ttl) := by
  have hok : Ok s := hrun.invariant (fun _ _ _ hs h => hs.step (step_cases h)) (ok_start now)
  refine ⟨servers_of_run hrun, hok.urls, hok.empty, fun {δ T} hfit hprompt hruns m hm => ?_⟩
  have htimely : Timely ttl δ T s := hrun.invariant_of_along
    (fun _ _ _ hs hP h => hs.step hfit hP (step_cases h)) hprompt (timely_start now)
  have hage := htimely.now_le hruns hm
  refine ⟨hage, fun hfailures hlong hslack => ?_⟩
  have hlt : ((interval ttl + 2 * T + 2 * δ : ℕ) : ℤ) < lifetime ttl := by
    exact_mod_cast interval_lt_lifetime hlong hslack
  rw [hfailures] at hage
  push_cast at hage hlt
  linarith

/-- A server with a URL. -/
def relay : ICEServer := ⟨["turn:turn.cloudflare.com:3478?transport=udp"], "u", "c"⟩

/-- Three hours of credentials, a ticker that starts a second late, and a refresh that
fails after nine tenths of them. -/
def refreshFails : List Action :=
  [.wait second, .answer (.object relay), .wait second, .newTicker,
    .wait (interval (newTtl 0)), .fire, .wait second, .receive, .wait (2 * second),
    .answer (.failed "timeout"), .wait (1100 * second)]

/-- The old credentials are kept, and have expired by now. -/
theorem kept_fresh_refreshFails : ∃ s, Run (step (newTtl 0)) (start 0) refreshFails s ∧
    s.servers = [relay] ∧ lifetime (newTtl 0) < s.now ∧
    s.now ≤ 2 * interval (newTtl 0) + 32 * second := by
  obtain ⟨s, hs, h⟩ := (Option.any_eq_true _ _).mp
    (by decide +kernel : (exec (step (newTtl 0)) (start 0) refreshFails).any fun s =>
      s.phase = .waiting ∧ s.minted = some 0 ∧ s.failures = 1 ∧ (lifetime (newTtl 0) : ℤ) < s.now)
  simp only [decide_eq_true_eq] at h
  obtain ⟨hphase, hminted, hfailures, hlate⟩ := h
  have hprompt : Along (step (newTtl 0)) (Prompt second (15 * second)) (start 0) refreshFails :=
    along_of_check (p := fun s a => decide (Prompt second (15 * second) s a))
      (fun _ _ h => of_decide_eq_true h) (by decide +kernel)
  obtain ⟨hservers, -, -, hage⟩ := kept_fresh (Run.of_exec hs)
  obtain ⟨hage, -⟩ := hage (by simp [minute, second]) hprompt (by rw [hphase]; simp) 0 hminted
  rw [hfailures] at hage
  refine ⟨s, Run.of_exec hs, hservers, hlate, ?_⟩
  push_cast at hage ⊢
  linarith

end AmbiRTC.TurnProvider
