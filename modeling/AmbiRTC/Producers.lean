/-
AmbiRTC/Producers.lean

A bounded queue with any number of producers and a consumer.  Each producer
pushes one item after the other, as in `DropOldest`: in three steps that the
others may come between.  An item that is displaced is given back to its owner
where the queue does so, and counted; both are steps of their own.  The consumer
takes items, and may count some of them as dropped on the same counter.

What has been pushed, enqueued, taken and counted is recorded on the side.

Main results: `inv_begin`, `inv_advance`, `inv_receive` and `inv_discard`, by
which every step keeps the account, and `Inv.settled`, what it comes to when no
push is under way.
-/
import AmbiRTC.DropOldest
import Mathlib.Algebra.BigOperators.Group.Finset.Basic
import Mathlib.Data.Fintype.Basic
import Mathlib.Tactic.Abel

namespace DropOldest

variable {ι α : Type}

/-! ### Pushes -/

/-- A pushed item: who pushed it, and how many pushes had begun before. -/
structure Item (ι α : Type) where
  producer : ι
  number : ℕ
  value : α

/-- Where a push is. -/
inductive Push (ι α : Type) where
  | running (x : Item ι α) (stage : Stage)
  /-- about to give back `y`, then to count it -/
  | returning (y : Item ι α) (next : Option (Item ι α × Stage))
  /-- about to count `y`, then to go on pushing, if there is anything left to push -/
  | counting (y : Item ι α) (next : Option (Item ι α × Stage))

/-- What is left of a push once a displaced item has been counted. -/
def Push.resume : Option (Item ι α × Stage) → Option (Push ι α)
  | some (x, stage) => some (.running x stage)
  | none => none

/-- Go on after a step that displaced `dropped`. -/
def Push.settle (recycle : Bool) (dropped : Option (Item ι α)) (next : Option (Item ι α × Stage)) :
    Option (Push ι α) :=
  match dropped with
  | none => Push.resume next
  | some y => some (if recycle then .returning y next else .counting y next)

/-- The item still to be enqueued. -/
def Push.pending : Push ι α → Option (Item ι α)
  | .running x _ => some x
  | .returning _ next => next.map Prod.fst
  | .counting _ next => next.map Prod.fst

/-- The displaced item still to be counted. -/
def Push.displaced : Push ι α → Option (Item ι α)
  | .running _ _ => none
  | .returning y _ => some y
  | .counting y _ => some y

/-- What a producer still has to enqueue. -/
def pending (o : Option (Push ι α)) : List (Item ι α) := (o.bind Push.pending).toList

/-- What a producer holds: the item it pushes and the one it has displaced. -/
def held (o : Option (Push ι α)) : Multiset (Item ι α) :=
  pending o + (o.bind Push.displaced).toList

/-- What has been given back and not counted yet. -/
def uncounted : Option (Push ι α) → Multiset (Item ι α)
  | some (.counting y _) => {y}
  | _ => 0

/-- The two ways of dealing with a displaced item hold the same. -/
theorem held_settle (recycle : Bool) (y : Item ι α) (next : Option (Item ι α × Stage)) :
    held (some (if recycle then Push.returning y next else .counting y next))
      = ((next.map Prod.fst).toList : Multiset (Item ι α)) + {y} := by
  cases recycle <;> rfl

theorem pending_settle (recycle : Bool) (y : Item ι α) (next : Option (Item ι α × Stage)) :
    pending (some (if recycle then Push.returning y next else .counting y next))
      = (next.map Prod.fst).toList := by
  cases recycle <;> rfl

theorem pending_resume (next : Option (Item ι α × Stage)) :
    pending (Push.resume next) = (next.map Prod.fst).toList := by
  rcases next with - | ⟨x, stage⟩ <;> rfl

theorem held_resume (next : Option (Item ι α × Stage)) :
    held (Push.resume next) = ((next.map Prod.fst).toList : Multiset (Item ι α)) := by
  rcases next with - | ⟨x, stage⟩ <;> rfl

theorem uncounted_resume (next : Option (Item ι α × Stage)) :
    uncounted (Push.resume next) = 0 := by
  rcases next with - | ⟨x, stage⟩ <;> rfl

/-! ### The channel -/

/-- A channel, with the pushes under way and what has happened to each item. -/
structure Channel (ι α : Type) where
  queue : List (Item ι α)
  producers : ι → Option (Push ι α)
  drops : UInt64
  /-- given back to the owner -/
  returned : List (Item ι α)
  pushed : List (Item ι α)
  enqueued : List (Item ι α)
  taken : List (Item ι α)
  /-- displaced, and counted by the push that displaced it -/
  dropped : List (Item ι α)
  /-- how many the consumer has counted -/
  discarded : ℕ

namespace Channel

/-- Nothing has been pushed. -/
def empty : Channel ι α where
  queue := []
  producers := fun _ => none
  drops := 0
  returned := []
  pushed := []
  enqueued := []
  taken := []
  dropped := []
  discarded := 0

variable [DecidableEq ι]

/-- Producer `p` begins to push `v`; it does one push at a time. -/
def begin (s : Channel ι α) (p : ι) (v : α) : Option (Channel ι α) :=
  match s.producers p with
  | some _ => none
  | none =>
    let x : Item ι α := ⟨p, s.pushed.length, v⟩
    some { s with
      producers := Function.update s.producers p (some (.running x .attempt))
      pushed := s.pushed ++ [x] }

/-- The next step of producer `p`. -/
def advance (recycle : Bool) (cap : ℕ) (s : Channel ι α) (p : ι) : Option (Channel ι α) :=
  match s.producers p with
  | none => none
  | some (.running x stage) =>
    let r := push cap s.queue x stage
    let next := r.next.map fun stage => (x, stage)
    some { s with
      queue := r.queue
      enqueued := if r.next.isNone ∧ r.dropped.isNone then s.enqueued ++ [x] else s.enqueued
      producers := Function.update s.producers p (Push.settle recycle r.dropped next) }
  | some (.returning y next) =>
    some { s with
      returned := s.returned ++ [y]
      producers := Function.update s.producers p (some (.counting y next)) }
  | some (.counting y next) =>
    some { s with
      drops := s.drops + 1
      dropped := s.dropped ++ [y]
      producers := Function.update s.producers p (Push.resume next) }

/-- The consumer takes the oldest item. -/
def receive (s : Channel ι α) : Option (Item ι α × Channel ι α) :=
  match s.queue with
  | [] => none
  | x :: rest => some (x, { s with queue := rest, taken := s.taken ++ [x] })

/-- The consumer counts an item as dropped. -/
def discard (s : Channel ι α) : Channel ι α :=
  { s with drops := s.drops + 1, discarded := s.discarded + 1 }

/-! ### The account -/

/-- The items of producer `p`. -/
def own (p : ι) (items : List (Item ι α)) : List (Item ι α) :=
  items.filter fun x => x.producer = p

theorem own_append (p : ι) (l l' : List (Item ι α)) : own p (l ++ l') = own p l ++ own p l' :=
  List.filter_append ..

theorem own_singleton {p : ι} {x : Item ι α} (h : x.producer = p) : own p [x] = [x] := by
  simp [own, h]

theorem own_singleton_of_ne {p : ι} {x : Item ι α} (h : x.producer ≠ p) : own p [x] = [] := by
  simp [own, h]

variable [Fintype ι]

/-- Every item pushed is in one place, the queue keeps within its capacity, and
what one producer enqueues it enqueues in the order it pushed it. -/
structure Inv (recycle : Bool) (cap : ℕ) (s : Channel ι α) : Prop where
  length_le : s.queue.length ≤ cap
  kept : (s.taken ++ s.queue).Sublist s.enqueued
  order : ∀ p, (own p s.enqueued ++ pending (s.producers p)).Sublist (own p s.pushed)
  numbers : s.pushed.Pairwise fun x y => x.number < y.number
  number_lt : ∀ x ∈ s.pushed, x.number < s.pushed.length
  account : (s.queue + s.taken + s.dropped : Multiset (Item ι α))
    + ∑ p, held (s.producers p) = s.pushed
  drops_eq : s.drops = UInt64.ofNat (s.dropped.length + s.discarded)
  returned_eq : (s.returned : Multiset (Item ι α))
    = if recycle then s.dropped + ∑ p, uncounted (s.producers p) else 0
  not_returning : recycle = false → ∀ p y next, s.producers p ≠ some (.returning y next)

theorem inv_empty (recycle : Bool) (cap : ℕ) : Inv recycle cap (empty : Channel ι α) where
  length_le := Nat.zero_le cap
  kept := List.Sublist.refl _
  order _ := List.Sublist.refl _
  numbers := List.Pairwise.nil
  number_lt := by simp [empty]
  account := by simp [empty, held, pending]
  drops_eq := rfl
  returned_eq := by simp [empty, uncounted]
  not_returning := by simp [empty]

/-- A sum over the producers, when one of them moves on. -/
theorem sum_update {M : Type} [AddCommMonoid M] (f : Option (Push ι α) → M) {A A' : M}
    {producers : ι → Option (Push ι α)} {p : ι} {o : Option (Push ι α)}
    (h : A' + f o = A + f (producers p)) :
    A' + ∑ q, f (Function.update producers p o q) = A + ∑ q, f (producers q) := by
  rw [← Finset.add_sum_erase _ _ (Finset.mem_univ p),
    ← Finset.add_sum_erase _ (fun q => f (producers q)) (Finset.mem_univ p), Function.update_self,
    ← add_assoc, h, add_assoc]
  congr 2
  refine Finset.sum_congr rfl fun q hq => ?_
  rw [Function.update_of_ne (Finset.ne_of_mem_erase hq)]

variable {recycle : Bool} {cap : ℕ} {s s' : Channel ι α} {p : ι}

/-- What a producer has still to enqueue is its own. -/
theorem Inv.producer_pending (h : Inv recycle cap s) {x : Item ι α}
    (hx : x ∈ pending (s.producers p)) : x.producer = p := by
  have hmem : x ∈ own p s.pushed := (h.order p).subset (List.mem_append_right _ hx)
  simpa [own] using (List.mem_filter.mp hmem).2

/-- The order of what is enqueued, when producer `p` moves on. -/
theorem order_update {o : Option (Push ι α)} {enqueued pushed : List (Item ι α)}
    (h : Inv recycle cap s) (hown : (own p enqueued ++ pending o).Sublist (own p pushed))
    (hothers : ∀ q, q ≠ p → own q enqueued = own q s.enqueued)
    (hpushed : s.pushed.Sublist pushed) (q : ι) :
    (own q enqueued ++ pending (Function.update s.producers p o q)).Sublist (own q pushed) := by
  by_cases hqp : q = p
  · subst hqp
    rwa [Function.update_self]
  · rw [Function.update_of_ne hqp, hothers q hqp]
    exact (h.order q).trans (hpushed.filter _)

theorem not_returning_update {o : Option (Push ι α)} (h : Inv recycle cap s)
    (ho : recycle = false → ∀ y next, o ≠ some (.returning y next)) :
    recycle = false → ∀ q y next,
      Function.update s.producers p o q ≠ some (.returning y next) := by
  intro hno q y next
  by_cases hqp : q = p
  · rw [hqp, Function.update_self]
    exact ho hno y next
  · rw [Function.update_of_ne hqp]
    exact h.not_returning hno q y next

/-! ### Beginning a push -/

theorem inv_begin {v : α} (h : Inv recycle cap s) (hb : s.begin p v = some s') :
    Inv recycle cap s' := by
  unfold begin at hb
  split at hb
  case h_1 => cases hb
  case h_2 hidle =>
    obtain rfl := Option.some.inj hb
    -- the new item, numbered by what has been pushed before
    obtain ⟨x, hx⟩ : ∃ x : Item ι α, x = ⟨p, s.pushed.length, v⟩ := ⟨_, rfl⟩
    simp only [← hx]
    constructor
    case length_le => exact h.length_le
    case kept => exact h.kept
    -- it comes after all else its producer has pushed
    case order =>
      refine order_update h ?_ (fun q _ => rfl) (List.sublist_append_left _ _)
      have hq := h.order p
      rw [hidle, show pending (none : Option (Push ι α)) = [] from rfl, List.append_nil] at hq
      rw [own_append, own_singleton (show x.producer = p by rw [hx])]
      exact hq.append (List.Sublist.refl [x])
    case numbers =>
      refine List.pairwise_append.mpr ⟨h.numbers, List.pairwise_singleton _ _, ?_⟩
      intro a ha b hb
      rw [List.mem_singleton.mp hb, hx]
      exact h.number_lt a ha
    case number_lt =>
      intro a ha
      rw [List.length_append, List.length_singleton]
      rcases List.mem_append.mp ha with ha | ha
      · exact Nat.lt_succ_of_lt (h.number_lt a ha)
      · rw [List.mem_singleton.mp ha, hx]
        exact Nat.lt_succ_self _
    -- it is held by its push, which held nothing before
    case account =>
      have hlocal : (s.queue + s.taken + s.dropped : Multiset (Item ι α))
          + held (some (.running x .attempt))
            = s.queue + s.taken + s.dropped + {x} + held (s.producers p) := by
        rw [hidle]
        simp [held, pending, Push.pending, Push.displaced]
      rw [sum_update held hlocal, add_right_comm, h.account, ← Multiset.coe_add]
      rfl
    case drops_eq => exact h.drops_eq
    case returned_eq =>
      have hlocal : (s.dropped : Multiset (Item ι α)) + uncounted (some (.running x .attempt))
          = s.dropped + uncounted (s.producers p) := by rw [hidle]; rfl
      rw [sum_update uncounted hlocal]
      exact h.returned_eq
    case not_returning => exact not_returning_update h fun _ y next => by simp

/-! ### A step of a push -/

/-- What a step of a push has to keep, for the producer that takes it. -/
theorem Inv.moved {o : Option (Push ι α)} {queue returned enqueued dropped : List (Item ι α)}
    {drops : UInt64} (h : Inv recycle cap s) (hlen : queue.length ≤ cap)
    (hkept : (s.taken ++ queue).Sublist enqueued)
    (hown : (own p enqueued ++ pending o).Sublist (own p s.pushed))
    (hothers : ∀ q, q ≠ p → own q enqueued = own q s.enqueued)
    (haccount : (queue + s.taken + dropped : Multiset (Item ι α)) + held o
      = s.queue + s.taken + s.dropped + held (s.producers p))
    (hdrops : drops = UInt64.ofNat (dropped.length + s.discarded))
    (hreturned : recycle = true → ∃ extra : Multiset (Item ι α),
      (returned : Multiset (Item ι α)) = s.returned + extra ∧
        (dropped : Multiset (Item ι α)) + uncounted o
          = s.dropped + extra + uncounted (s.producers p))
    (hnot : recycle = false → returned = s.returned ∧ ∀ y next, o ≠ some (.returning y next)) :
    Inv recycle cap { s with
      queue := queue
      producers := Function.update s.producers p o
      drops := drops
      returned := returned
      enqueued := enqueued
      dropped := dropped } where
  length_le := hlen
  kept := hkept
  order := order_update h hown hothers (List.Sublist.refl _)
  numbers := h.numbers
  number_lt := h.number_lt
  account := (sum_update held haccount).trans h.account
  drops_eq := hdrops
  returned_eq := by
    have hold := h.returned_eq
    cases recycle with
    | false =>
      rw [(hnot rfl).1]
      exact hold
    | true =>
      obtain ⟨extra, hret, hlocal⟩ := hreturned rfl
      rw [if_pos rfl] at hold ⊢
      rw [sum_update uncounted hlocal, hret, hold, add_right_comm]
  not_returning := not_returning_update h fun hno => (hnot hno).2

/-- A push at one of its steps. -/
theorem Inv.running (h : Inv recycle cap s) {x : Item ι α} {stage : Stage}
    (hp : s.producers p = some (.running x stage)) (ha : s.advance recycle cap p = some s') :
    Inv recycle cap s' := by
  have hown := h.order p
  have hx : x.producer = p := h.producer_pending (by rw [hp]; exact List.mem_singleton.mpr rfl)
  have hpend : pending (some (Push.running x stage)) = [x] := rfl
  have hhold : held (some (Push.running x stage)) = {x} := rfl
  rw [hp, hpend] at hown
  have hkept := h.kept
  simp only [advance, hp, Option.some.injEq] at ha
  rcases push_cases cap s.queue x stage with
    ⟨next, hr⟩ | ⟨hroom, hr⟩ | ⟨old, rest, hqueue, hr⟩ | hr
  · -- on to the next step
    simp only [hr] at ha
    subst ha
    refine h.moved (p := p) h.length_le hkept hown (fun q _ => rfl) ?_ h.drops_eq ?_ ?_
    · rw [hp]
      rfl
    · exact fun _ => ⟨0, (add_zero _).symm, by rw [hp, add_zero]; rfl⟩
    · exact fun _ => ⟨rfl, fun y next => by simp [Push.settle, Push.resume]⟩
  · -- enqueued
    simp only [hr] at ha
    subst ha
    refine h.moved (p := p) ?_ ?_ ?_ ?_ ?_ h.drops_eq ?_ ?_
    · rw [List.length_append, List.length_singleton]
      exact hroom
    · rw [← List.append_assoc]
      exact hkept.append (List.Sublist.refl [x])
    -- its producer's item goes from the push to the queue, at the end of both
    · have henq : own p (s.enqueued ++ [x]) = own p s.enqueued ++ [x] := by
        rw [own_append, own_singleton hx]
      simpa [henq, show pending (Push.settle recycle none none) = ([] : List (Item ι α)) from rfl]
        using hown
    · intro q hq
      have hne : x.producer ≠ q := by rw [hx]; exact hq.symm
      simp [own_append, own_singleton_of_ne hne]
    · have hdone : held (Push.settle recycle none none) = (0 : Multiset (Item ι α)) := rfl
      rw [hp, hhold, ← Multiset.coe_add, Multiset.coe_singleton]
      simp only [Option.map_none, hdone]
      abel
    · exact fun _ => ⟨0, (add_zero _).symm, by rw [hp, add_zero]; rfl⟩
    · exact fun _ => ⟨rfl, fun y next => by simp [Push.settle, Push.resume]⟩
  · -- the oldest item displaced
    simp only [hr] at ha
    subst ha
    refine h.moved (p := p) ?_ ?_ ?_ (fun q _ => rfl) ?_ h.drops_eq ?_ ?_
    · have hlen := h.length_le
      rw [hqueue] at hlen
      exact Nat.le_of_succ_le hlen
    · rw [hqueue] at hkept
      exact ((List.Sublist.refl _).append (List.sublist_cons_self old rest)).trans hkept
    · simp only [Push.settle, pending_settle]
      exact hown
    -- the head of the queue goes to the push that displaced it
    · have hsplit : (s.queue : Multiset (Item ι α)) = {old} + rest := by
        rw [hqueue]
        rfl
      have hx1 : (([x] : List (Item ι α)) : Multiset (Item ι α)) = {x} := rfl
      rw [hp, hhold, hsplit]
      simp only [Push.settle, held_settle, Option.map_some, Option.toList_some, hx1]
      abel
    · intro hrec
      exact ⟨0, (add_zero _).symm, by rw [hp, add_zero, hrec]; rfl⟩
    · intro hno
      exact ⟨rfl, fun y next => by simp [Push.settle, hno]⟩
  · -- the new item dropped
    simp only [hr] at ha
    subst ha
    refine h.moved (p := p) h.length_le hkept ?_ (fun q _ => rfl) ?_ h.drops_eq ?_ ?_
    · simp only [Push.settle, pending_settle]
      exact ((List.Sublist.refl _).append (List.nil_sublist [x])).trans hown
    · have hnil : (([] : List (Item ι α)) : Multiset (Item ι α)) = 0 := rfl
      rw [hp, hhold]
      simp only [Push.settle, held_settle, Option.map_none, Option.toList_none, hnil, zero_add]
    · intro hrec
      exact ⟨0, (add_zero _).symm, by rw [hp, add_zero, hrec]; rfl⟩
    · intro hno
      exact ⟨rfl, fun y next => by simp [Push.settle, hno]⟩

/-- A displaced item goes back. -/
theorem Inv.returning (h : Inv recycle cap s) {y : Item ι α} {next : Option (Item ι α × Stage)}
    (hp : s.producers p = some (.returning y next)) (ha : s.advance recycle cap p = some s') :
    Inv recycle cap s' := by
  have hown := h.order p
  simp only [advance, hp, Option.some.injEq] at ha
  subst ha
  rw [hp] at hown
  refine h.moved (p := p) h.length_le h.kept hown (fun q _ => rfl) ?_ h.drops_eq ?_ ?_
  · rw [hp]
    rfl
  · intro _
    refine ⟨{y}, (Multiset.coe_add _ _).symm, ?_⟩
    rw [hp]
    simp [uncounted]
  · intro hno
    exact absurd hp (h.not_returning hno p y next)

/-- It is counted. -/
theorem Inv.counting (h : Inv recycle cap s) {y : Item ι α} {next : Option (Item ι α × Stage)}
    (hp : s.producers p = some (.counting y next)) (ha : s.advance recycle cap p = some s') :
    Inv recycle cap s' := by
  have hown := h.order p
  simp only [advance, hp, Option.some.injEq] at ha
  subst ha
  rw [hp] at hown
  refine h.moved (p := p) h.length_le h.kept ?_ (fun q _ => rfl) ?_ ?_ ?_ ?_
  · rw [pending_resume]
    exact hown
  · have hhold : held (some (Push.counting y next)) = held (Push.resume next) + {y} := by
      rw [held_resume]
      rfl
    rw [hp, hhold, ← Multiset.coe_add, Multiset.coe_singleton, ← add_assoc, ← add_assoc,
      add_right_comm]
  · rw [h.drops_eq, List.length_append, List.length_singleton, Nat.add_right_comm,
      UInt64.ofNat_add (_ + _) 1]
    rfl
  · intro _
    refine ⟨0, (add_zero _).symm, ?_⟩
    rw [hp, uncounted_resume, ← Multiset.coe_add]
    simp [uncounted]
  · intro _
    refine ⟨rfl, fun y next' => ?_⟩
    rcases next with - | ⟨x, stage⟩ <;> simp [Push.resume]

/-- **A step of a push keeps the account.** -/
theorem inv_advance (h : Inv recycle cap s) (ha : s.advance recycle cap p = some s') :
    Inv recycle cap s' := by
  rcases hp : s.producers p with - | (⟨x, stage⟩ | ⟨y, next⟩ | ⟨y, next⟩)
  case none =>
    rw [advance, hp] at ha
    cases ha
  case some.running => exact h.running hp ha
  case some.returning => exact h.returning hp ha
  case some.counting => exact h.counting hp ha

/-! ### The consumer -/

theorem inv_receive {x : Item ι α} (h : Inv recycle cap s) (hr : s.receive = some (x, s')) :
    Inv recycle cap s' := by
  unfold receive at hr
  split at hr
  case h_1 => cases hr
  case h_2 y rest hqueue =>
    obtain ⟨rfl, rfl⟩ := Prod.mk.inj (Option.some.inj hr)
    have hlen := h.length_le
    have hkept := h.kept
    have haccount := h.account
    rw [hqueue] at hlen hkept haccount
    exact
      { length_le := Nat.le_of_succ_le hlen
        kept := by rwa [List.append_assoc, List.singleton_append]
        order := h.order
        numbers := h.numbers
        number_lt := h.number_lt
        account := by
          have hsplit : ((y :: rest : List (Item ι α)) : Multiset (Item ι α)) = {y} + rest := rfl
          rw [← haccount, hsplit, ← Multiset.coe_add, Multiset.coe_singleton]
          abel
        drops_eq := h.drops_eq
        returned_eq := h.returned_eq
        not_returning := h.not_returning }

theorem inv_discard (h : Inv recycle cap s) : Inv recycle cap s.discard where
  length_le := h.length_le
  kept := h.kept
  order := h.order
  numbers := h.numbers
  number_lt := h.number_lt
  account := h.account
  drops_eq := by
    show s.drops + 1 = UInt64.ofNat (s.dropped.length + (s.discarded + 1))
    rw [h.drops_eq, ← Nat.add_assoc, UInt64.ofNat_add (_ + _) 1]
    rfl
  returned_eq := h.returned_eq
  not_returning := h.not_returning

/-! ### What the account comes to -/

/-- No push is under way. -/
def Quiet (s : Channel ι α) : Prop := ∀ p, s.producers p = none

/-- Every item pushed is queued, taken or counted, once. -/
theorem Inv.settled (h : Inv recycle cap s) (hq : s.Quiet) :
    s.pushed.Perm (s.queue ++ s.taken ++ s.dropped) := by
  have haccount := h.account
  have hheld : ∑ p, held (s.producers p) = 0 :=
    Finset.sum_eq_zero fun p _ => by rw [hq p]; rfl
  rw [hheld, add_zero, Multiset.coe_add, Multiset.coe_add] at haccount
  exact Multiset.coe_eq_coe.mp haccount.symm

/-- Every displaced item has been given back, once. -/
theorem Inv.returned_perm (h : Inv true cap s) (hq : s.Quiet) : s.returned.Perm s.dropped := by
  have hreturned := h.returned_eq
  have hsum : ∑ p, uncounted (s.producers p) = 0 :=
    Finset.sum_eq_zero fun p _ => by rw [hq p]; rfl
  rw [if_pos rfl, hsum, add_zero] at hreturned
  exact Multiset.coe_eq_coe.mp hreturned

theorem Inv.nodup_pushed (h : Inv recycle cap s) : s.pushed.Nodup :=
  h.numbers.imp fun hlt heq => absurd (congrArg Item.number heq) hlt.ne

/-- What is queued has been queued once. -/
theorem Inv.nodup_enqueued (h : Inv recycle cap s) : s.enqueued.Nodup := by
  classical
  refine List.nodup_iff_count_le_one.mpr fun x => ?_
  have hown (l : List (Item ι α)) : (own x.producer l).count x = l.count x :=
    List.count_filter (by simp)
  have horder : (own x.producer s.enqueued).Sublist (own x.producer s.pushed) :=
    (List.sublist_append_left _ _).trans (h.order x.producer)
  calc s.enqueued.count x = (own x.producer s.enqueued).count x := (hown _).symm
    _ ≤ (own x.producer s.pushed).count x := horder.count_le x
    _ = s.pushed.count x := hown _
    _ ≤ 1 := List.nodup_iff_count_le_one.mp h.nodup_pushed x

/-- What a producer has pushed leaves, as far as it survives, in the order it was
pushed. -/
theorem Inv.leaves_in_order (h : Inv recycle cap s) (p : ι) :
    (own p (s.taken ++ s.queue)).Sublist (own p s.pushed) :=
  (h.kept.filter _).trans ((List.sublist_append_left _ _).trans (h.order p))

end Channel

end DropOldest
