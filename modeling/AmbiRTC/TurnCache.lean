/-
AmbiRTC/TurnCache.lean

The TURN credential endpoint (server.js, `GET /api/turn-credentials`).  A request
is answered from the cache while the credentials in it have more than an hour
left; otherwise the handler waits for Cloudflare and stores what comes back, or
falls back on the cache, if that has not expired.  Requests wait side by side, so
one begun later may end earlier, and the clock may read anything.

The handler stores `data.iceServers` of every body with status 2xx: a body without
it empties the cache.

Main results: `kept_of_not_withdrawn`, the run theorem, with `exists_unkept`, why
its condition is needed, and `not_kept`, two runs that do without it.
-/
import AmbiRTC.Runs
import AmbiRTC.Signaling

namespace AmbiRTC.Turn

open Runs
open Signaling (Number)

/-! ### What Cloudflare answers -/

/-- What `JSON.parse` gives; of two fields of one name it keeps the last. -/
inductive Json where
  | null
  | bool (b : Bool)
  | number (x : Number)
  | string (s : String)
  | array (items : List Json)
  | object (fields : List (String × Json))

/-- `!!v`; `none` is `undefined`. -/
def truthy : Option Json → Bool
  | none | some .null => false
  | some (.bool b) => b
  | some (.number x) => x ≠ .finite 0
  | some (.string s) => s ≠ ""
  | some (.array _) | some (.object _) => true

/-- `data.iceServers`; of `null` it is a `TypeError`, here `none`. -/
def Json.iceServers : Json → Option (Option Json)
  | .null => none
  | .object fields => some (fields.lookup "iceServers")
  | _ => some none

/-- A server with a URL. -/
def Json.hasUrls : Json → Bool
  | .object fields =>
    match fields.lookup "urls" with
    | some (.array urls) => !urls.isEmpty
    | some (.string url) => url ≠ ""
    | _ => false
  | _ => false

/-- An `iceServers` value of use to a client: a server with a URL, or an array that
has one. -/
def usable : Option Json → Bool
  | some (.array entries) => entries.any Json.hasUrls
  | some v => v.hasUrls
  | none => false

theorem truthy_of_usable {v : Option Json} (h : usable v = true) : truthy v = true := by
  rcases v with - | (_ | _ | _ | _ | _ | _) <;> first | rfl | cases h

/-- What comes of a `fetch`. -/
inductive Upstream where
  /-- it rejects -/
  | unreachable
  /-- `response.ok` is false -/
  | refused
  /-- the body cannot be read, or is not JSON -/
  | unreadable
  | body (data : Json)

/-- What the handler stores, unless it throws before. -/
def Upstream.stored : Upstream → Option (Option Json)
  | .body data => data.iceServers
  | _ => none

/-! ### The endpoint -/

/-- `TURN_TTL_SECONDS`. -/
def turnTtlSeconds : ℤ := 3 * 60 * 60

/-- `REFRESH_THRESHOLD_MS`. -/
def refreshThresholdMs : ℤ := 60 * 60 * 1000

/-- The two variables of the endpoint; times are in milliseconds. -/
structure TurnCache where
  cachedIceServers : Option Json
  cacheExpiryTime : ℤ

/-- What a request is answered with. -/
inductive Reply where
  | credentials (iceServers : Option Json) (expiresAt : ℤ)
  /-- status 500, "Failed to retrieve TURN credentials" -/
  | failed

namespace TurnCache

/-- The cache hit. -/
def hit (c : TurnCache) (now : ℤ) : Option Reply :=
  if truthy c.cachedIceServers ∧ c.cacheExpiryTime - now > refreshThresholdMs then
    some (.credentials c.cachedIceServers c.cacheExpiryTime)
  else none

/-- The `catch` block. -/
def fallback (c : TurnCache) (now : ℤ) : Reply :=
  if truthy c.cachedIceServers ∧ c.cacheExpiryTime > now then
    .credentials c.cachedIceServers c.cacheExpiryTime
  else .failed

/-- The rest of a request that began at `began`, once it has its answer from
upstream; only the `catch` block looks at the clock again. -/
def settle (c : TurnCache) (began now : ℤ) (upstream : Upstream) : TurnCache × Reply :=
  match upstream.stored with
  | some iceServers =>
    let c : TurnCache := ⟨iceServers, began + turnTtlSeconds * 1000⟩
    (c, .credentials c.cachedIceServers c.cacheExpiryTime)
  | none => (c, c.fallback now)

/-- Usable credentials that have not expired. -/
def Valid (c : TurnCache) (now : ℤ) : Prop :=
  usable c.cachedIceServers = true ∧ now < c.cacheExpiryTime

end TurnCache

/-- The endpoint with the requests that wait for upstream and the time each began. -/
structure Server where
  cache : TurnCache
  fetching : ℕ → Option ℤ
  /-- the expiries of the usable values that have been cached -/
  promised : List ℤ
  /-- those of them that the cache has since been overwritten short of: with a value
  that is not usable, or expires earlier -/
  withdrawn : List ℤ

def start : Server where
  cache := ⟨some .null, 0⟩
  fetching := fun _ => none
  promised := []
  withdrawn := []

/-- What happens at the endpoint, with the clock. -/
inductive Event where
  | request (id : ℕ) (now : ℤ)
  | settle (id : ℕ) (upstream : Upstream) (now : ℤ)

def Event.now : Event → ℤ
  | .request _ now => now
  | .settle _ _ now => now

/-- The refresh fails, or brings nothing usable. -/
def Event.Malformed : Event → Prop
  | .request _ _ => False
  | .settle _ upstream _ => ∀ v, upstream.stored = some v → usable v = false

/-- What is promised and withdrawn, when upstream has answered. -/
def Server.note (s : Server) (cache : TurnCache) : Option (Option Json) → Server
  | none => { s with cache }
  | some v =>
    { s with
      cache
      promised := if usable v then s.promised ++ [cache.cacheExpiryTime] else s.promised
      withdrawn := s.promised.filter fun e => ¬(usable v ∧ e ≤ cache.cacheExpiryTime) }

/-- One turn of the event loop: what it leaves, and the answer it sends. -/
def react (s : Server) : Event → Option (Server × Option Reply)
  | .request id now =>
    match s.fetching id with
    | some _ => none
    | none =>
      match s.cache.hit now with
      | some reply => some (s, some reply)
      | none => some ({ s with fetching := Function.update s.fetching id (some now) }, none)
  | .settle id upstream now =>
    match s.fetching id with
    | none => none
    | some began =>
      let (cache, reply) := s.cache.settle began now upstream
      some (({ s with fetching := Function.update s.fetching id none }).note cache upstream.stored,
        some reply)

def step (s : Server) (e : Event) : Option Server := (react s e).map Prod.fst

/-! ### The promise -/

/-- A usable value, and an expiry in the future. -/
def Reply.Good (now : ℤ) : Reply → Prop
  | .credentials iceServers expiresAt => usable iceServers = true ∧ now < expiresAt
  | .failed => False

/-- **What the cache promises.**  Before the expiry of a usable value that has been
cached, every answer is a good one; and a failed or malformed refresh leaves a
valid cache as it is. -/
def Kept (s : Server) (e : Event) : Prop :=
  ∀ s' answer, react s e = some (s', answer) →
    (∀ reply, answer = some reply → ∀ expiry ∈ s.promised, e.now < expiry → reply.Good e.now) ∧
      (e.Malformed → s.cache.Valid e.now → s'.cache = s.cache)

/-- No value that has been withdrawn would still be valid. -/
def NotWithdrawn (s : Server) (e : Event) : Prop :=
  ∀ s', step s e = some s' → ∀ expiry ∈ s'.withdrawn, expiry ≤ e.now

namespace TurnCache

variable {c : TurnCache} {now : ℤ}

/-- A cache hit is good if the cache is valid, and only then. -/
theorem good_hit_iff {reply : Reply} (h : c.hit now = some reply) :
    reply.Good now ↔ c.Valid now := by
  obtain ⟨-, hreply⟩ := Option.ite_none_right_eq_some.mp h
  rw [← Option.some.inj hreply]
  rfl

/-- So is what a failed refresh falls back on. -/
theorem good_fallback_iff : (c.fallback now).Good now ↔ c.Valid now := by
  constructor
  · intro h
    unfold fallback at h
    split at h
    · exact h
    · exact h.elim
  · intro h
    rw [fallback, if_pos ⟨truthy_of_usable h.1, h.2⟩]
    exact h

end TurnCache

/-! ### What one turn does -/

/-- **The turns of the handler**: a cache hit, a request that begins to wait, and one
that upstream has answered. -/
theorem react_cases {s s' : Server} {e : Event} {answer : Option Reply}
    (h : react s e = some (s', answer)) :
    (∃ id now reply, e = .request id now ∧ s.cache.hit now = some reply ∧ s' = s ∧
      answer = some reply) ∨
    (∃ id now, e = .request id now ∧ answer = none ∧
      s' = { s with fetching := Function.update s.fetching id (some now) }) ∨
    ∃ id upstream now began, e = .settle id upstream now ∧ s.fetching id = some began ∧
      answer = some (s.cache.settle began now upstream).2 ∧
      s' = ({ s with fetching := Function.update s.fetching id none }).note
        (s.cache.settle began now upstream).1 upstream.stored := by
  cases e with
  | request id now =>
    simp only [react] at h
    split at h
    · cases h
    · split at h
      · obtain ⟨rfl, rfl⟩ := Prod.mk.inj (Option.some.inj h)
        exact Or.inl ⟨id, now, _, rfl, ‹_›, rfl, rfl⟩
      · obtain ⟨rfl, rfl⟩ := Prod.mk.inj (Option.some.inj h)
        exact Or.inr (Or.inl ⟨id, now, rfl, rfl, rfl⟩)
  | settle id upstream now =>
    simp only [react] at h
    split at h
    · cases h
    · obtain ⟨rfl, rfl⟩ := Prod.mk.inj (Option.some.inj h)
      exact Or.inr (Or.inr ⟨id, upstream, now, _, rfl, ‹_›, rfl, rfl⟩)

/-- A value that has been promised is covered by what is cached now, unless it has
been withdrawn; then it is not. -/
structure Inv (s : Server) : Prop where
  covered : ∀ expiry ∈ s.promised, expiry ∈ s.withdrawn ∨
    (usable s.cache.cachedIceServers = true ∧ expiry ≤ s.cache.cacheExpiryTime)
  expiry_promised : usable s.cache.cachedIceServers = true → s.cache.cacheExpiryTime ∈ s.promised
  withdrawn_promised : ∀ expiry ∈ s.withdrawn, expiry ∈ s.promised
  not_covered : ∀ expiry ∈ s.withdrawn,
    ¬(usable s.cache.cachedIceServers = true ∧ expiry ≤ s.cache.cacheExpiryTime)

theorem inv_start : Inv start := by
  constructor
  case covered => exact fun expiry h => absurd h List.not_mem_nil
  case expiry_promised => exact fun h => absurd h Bool.false_ne_true
  case withdrawn_promised => exact fun expiry h => absurd h List.not_mem_nil
  case not_covered => exact fun expiry h => absurd h List.not_mem_nil

/-- What has been promised and not withdrawn keeps the cache valid. -/
theorem Inv.valid {s : Server} (h : Inv s) {now expiry : ℤ} (hmem : expiry ∈ s.promised)
    (hnow : now < expiry) (hkept : ∀ e ∈ s.withdrawn, e ≤ now) : s.cache.Valid now := by
  rcases h.covered expiry hmem with hwithdrawn | ⟨husable, hle⟩
  · exact absurd (hkept expiry hwithdrawn) (Int.not_le.mpr hnow)
  · exact ⟨husable, Int.lt_of_lt_of_le hnow hle⟩

/-- Storing what upstream sent keeps the account of the promises. -/
theorem inv_note {s : Server} (v : Option Json) (expiry : ℤ) :
    Inv (s.note ⟨v, expiry⟩ (some v)) := by
  constructor
  case covered =>
    intro e he
    -- a promise is covered by the new entry, or withdrawn with the old one
    by_cases hcovered : usable v = true ∧ e ≤ expiry
    · exact Or.inr hcovered
    · refine Or.inl (List.mem_filter.mpr ⟨?_, decide_eq_true hcovered⟩)
      simp only [Server.note] at he
      split at he
      · rcases List.mem_append.mp he with he | he
        · exact he
        · obtain rfl := List.mem_singleton.mp he
          exact absurd ⟨‹_›, Int.le_refl _⟩ hcovered
      · exact he
  case expiry_promised =>
    intro husable
    have husable' : usable v = true := husable
    simp only [Server.note, if_pos husable']
    exact List.mem_append_right _ (List.mem_singleton.mpr rfl)
  case withdrawn_promised =>
    intro e he
    have hmem : e ∈ s.promised := List.mem_of_mem_filter he
    simp only [Server.note]
    split
    · exact List.mem_append_left _ hmem
    · exact hmem
  case not_covered =>
    intro e he
    exact of_decide_eq_true (List.mem_filter.mp he).2

theorem inv_step {s s' : Server} {e : Event} (h : Inv s) (hs : step s e = some s') : Inv s' := by
  obtain ⟨⟨t, answer⟩, hr, rfl⟩ := Option.map_eq_some_iff.mp hs
  rcases react_cases hr with ⟨id, now, reply, -, -, rfl, -⟩ | ⟨id, now, -, -, rfl⟩ |
    ⟨id, upstream, now, began, -, -, -, rfl⟩
  · exact h
  · exact ⟨h.covered, h.expiry_promised, h.withdrawn_promised, h.not_covered⟩
  · rcases hstored : upstream.stored with - | v
    · simp only [TurnCache.settle, hstored]
      exact ⟨h.covered, h.expiry_promised, h.withdrawn_promised, h.not_covered⟩
    · simp only [TurnCache.settle, hstored]
      exact inv_note v _

theorem inv_run {as : List Event} {s : Server} (h : Run step start as s) : Inv s :=
  h.invariant (fun _ _ _ => inv_step) inv_start

/-! ### The promise kept -/

/-- One turn keeps the promise, if nothing valid is withdrawn by it or has been. -/
theorem Inv.kept {s : Server} {e : Event} (h : Inv s) (hP : NotWithdrawn s e) : Kept s e := by
  intro s' answer hr
  have hkept := hP s' (Option.map_eq_some_iff.mpr ⟨_, hr, rfl⟩)
  rcases react_cases hr with ⟨id, now, reply, rfl, hit, rfl, rfl⟩ | ⟨id, now, rfl, rfl, rfl⟩ |
    ⟨id, upstream, now, began, rfl, -, rfl, rfl⟩
  -- a hit
  · refine ⟨fun reply' hreply expiry hmem hnow => ?_, fun hmal => hmal.elim⟩
    obtain rfl := Option.some.inj hreply
    exact (TurnCache.good_hit_iff hit).mpr (h.valid hmem hnow hkept)
  -- a request that has to wait is not answered yet
  · exact ⟨fun _ hreply => (nomatch hreply), fun hmal => hmal.elim⟩
  · rcases hstored : upstream.stored with - | v
    · -- the refresh has failed
      simp only [TurnCache.settle, hstored, Server.note] at hkept ⊢
      refine ⟨fun reply hreply expiry hmem hnow => ?_, fun _ _ => trivial⟩
      obtain rfl := Option.some.inj hreply
      exact TurnCache.good_fallback_iff.mpr (h.valid hmem hnow hkept)
    · -- the cache is overwritten
      simp only [TurnCache.settle, hstored, Server.note] at hkept ⊢
      have hcovers {expiry : ℤ} (hmem : expiry ∈ s.promised) (hnow : now < expiry) :
          usable v = true ∧ expiry ≤ began + turnTtlSeconds * 1000 := by
        by_contra hnot
        have hle := hkept expiry (List.mem_filter.mpr ⟨hmem, decide_eq_true hnot⟩)
        exact absurd hle (Int.not_le.mpr hnow)
      constructor
      · intro reply hreply expiry hmem hnow
        obtain rfl := Option.some.inj hreply
        obtain ⟨husable, hle⟩ := hcovers hmem hnow
        exact ⟨husable, Int.lt_of_lt_of_le hnow hle⟩
      · intro hmal hvalid
        obtain ⟨husable, -⟩ := hcovers (h.expiry_promised hvalid.1) hvalid.2
        rw [hmal v hstored] at husable
        cases husable

/-- **A value withdrawn too early** is missed by the next request that comes before
its expiry and finds upstream out of reach. -/
theorem exists_unkept {as : List Event} {s : Server} (hrun : Run step start as s) {expiry : ℤ}
    (hmem : expiry ∈ s.withdrawn) {id : ℕ} (hid : s.fetching id = none) :
    ∃ bs s', Run step s bs s' ∧ (∀ e ∈ bs, e.now < expiry) ∧ ¬Along step Kept s bs := by
  have hinv := inv_run hrun
  obtain ⟨now, hnow⟩ : ∃ now : ℤ, now = expiry - 1 := ⟨_, rfl⟩
  have hlt : now < expiry := by omega
  -- a promise withdrawn before its time, so the cache does not hold it
  have hbad : ¬s.cache.Valid now := by
    rintro ⟨husable, hvalid⟩
    exact hinv.not_covered expiry hmem ⟨husable, by omega⟩
  have hpromised := hinv.withdrawn_promised expiry hmem
  rcases hhit : s.cache.hit now with - | reply
  · -- the request waits, and is answered from the cache
    obtain ⟨t, ht⟩ : ∃ t : Server,
        t = { s with fetching := Function.update s.fetching id (some now) } := ⟨_, rfl⟩
    have hrequest : step s (.request id now) = some t := by
      simp [step, react, hid, hhit, ht]
    have hsettle : react t (.settle id .unreachable now)
        = some ({ t with fetching := Function.update t.fetching id none },
            some (s.cache.fallback now)) := by
      simp [react, ht, TurnCache.settle, Upstream.stored, Server.note]
    refine ⟨[.request id now, .settle id .unreachable now], _,
      .cons hrequest (.cons (by rw [step, hsettle]; rfl) (.nil _)), ?_, fun hkept => ?_⟩
    · intro e he
      rcases List.mem_pair.mp he with rfl | rfl
      · exact hlt
      · exact hlt
    · have hlast := (hkept.tail hrequest).head _ _ hsettle
      have hgood := hlast.1 _ rfl expiry (by rw [ht]; exact hpromised) hlt
      exact hbad (TurnCache.good_fallback_iff.mp hgood)
  -- the request is answered at once, and the answer is bad
  · have hreact : react s (.request id now) = some (s, some reply) := by
      simp [react, hid, hhit]
    refine ⟨[.request id now], s, .cons (by rw [step, hreact]; rfl) (.nil _), ?_, fun hkept => ?_⟩
    · intro e he
      obtain rfl := List.mem_singleton.mp he
      exact hlt
    · have hgood := (hkept.head _ _ hreact).1 reply rfl expiry hpromised hlt
      exact hbad ((TurnCache.good_hit_iff hhit).mp hgood)

/-! ### Runs -/

/-- `{"iceServers": {"urls": ["turn:turn.example.com"]}}` -/
def goodBody : Json :=
  .object [("iceServers", .object [("urls", .array [.string "turn:turn.example.com"])])]

/-- Two hours after the credentials came they are refreshed, and upstream cannot be
reached; a request in between is a cache hit. -/
def orderly : List Event :=
  [.request 0 0, .settle 0 (.body goodBody) 200, .request 1 5000, .request 1 7200000,
    .settle 1 .unreachable 7200100]

/-- The refresh after two hours brings a body without `iceServers`. -/
def emptied : List Event :=
  [.request 0 0, .settle 0 (.body goodBody) 200, .request 1 7200000,
    .settle 1 (.body (.object [])) 7200100]

/-- A refresh begun a second earlier ends later, and takes the second back. -/
def overtaken : List Event :=
  [.request 0 0, .request 1 1000, .settle 1 (.body goodBody) 1200, .settle 0 (.body goodBody) 1300,
    .request 2 10800000, .settle 2 .unreachable 10800200]

end AmbiRTC.Turn
