/-
AmbiRTC/Custody.lean

Who has a frame: the abstract model of the encode pipeline.  A frame is in the
pool, in the hands of `SubmitMix`, in `mixCh`, fanned out to the workers, or
taken by the garbage collector.  The model keeps the reference counts and what
each use of a frame has been through, and forgets what frames contain, how far
each goroutine has come and how jobs and packets are queued.

Main results: `Ok` says where frames are, what their counts are and what
happened to each use, and every transition keeps it (`Ok.step`).
-/
import AmbiRTC.Pipeline

namespace AmbiRTC

namespace Pipeline

open FanOut

/-! ### The model -/

/-- The custody of frames. -/
@[ext]
structure Custody (K : ℕ) where
  allocated : ℕ
  pool : List ℕ
  collected : List ℕ
  /-- the frame `SubmitMix` is to put into `mixCh` -/
  fresh : Option ℕ
  /-- the frame `SubmitMix` has displaced and is to put into the pool -/
  stale : Option ℕ
  mixCh : List ℕ
  fan : Fan ℕ K
  refs : ℕ → ℤ
  use : ℕ → ℕ
  uses : ℕ
  life : ℕ → Life K

namespace Custody

variable {K : ℕ}

/-- What happens to frames. -/
inductive Step (bundled : Bool) : Custody K → Custody K → Prop
  | acquire {c : Custody K} (fr : ℕ) (hfresh : c.fresh = none) (hstale : c.stale = none)
      (hpool : fr ∈ c.pool) :
      Step bundled c
        { c with
          pool := c.pool.erase fr
          fresh := some fr
          use := Function.update c.use fr c.uses
          uses := c.uses + 1
          life := Function.update c.life c.uses .new }
  | allocate {c : Custody K} (hfresh : c.fresh = none) (hstale : c.stale = none) :
      Step bundled c
        { c with
          allocated := c.allocated + 1
          fresh := some c.allocated
          refs := Function.update c.refs c.allocated 0
          use := Function.update c.use c.allocated c.uses
          uses := c.uses + 1
          life := Function.update c.life c.uses .new }
  | enqueue {c : Custody K} (fr : ℕ) (hfresh : c.fresh = some fr) :
      Step bundled c { c with fresh := none, mixCh := c.mixCh ++ [fr] }
  | evict {c : Custody K} (old : ℕ) (rest : List ℕ) (hstale : c.stale = none)
      (hmix : c.mixCh = old :: rest) :
      Step bundled c { c with stale := some old, mixCh := rest }
  | giveUp {c : Custody K} (fr : ℕ) (hfresh : c.fresh = some fr) (hstale : c.stale = none) :
      Step bundled c { c with fresh := none, stale := some fr }
  | recycle {c : Custody K} (old : ℕ) (hstale : c.stale = some old) :
      Step bundled c
        { c with
          pool := old :: c.pool
          stale := none
          life := Function.update c.life (c.use old) (c.life (c.use old)).release }
  | collect {c : Custody K} (fr : ℕ) (hpool : fr ∈ c.pool) :
      Step bundled c { c with pool := c.pool.erase fr, collected := fr :: c.collected }
  | dispatch {c : Custody K} (fr : ℕ) (rest : List ℕ) (hmix : c.mixCh = fr :: rest) :
      Step bundled c
        { c with
          mixCh := rest
          fan := c.fan.dispatch fr
          refs := Function.update c.refs fr K
          life := Function.update c.life (c.use fr) (c.life (c.use fr)).dispatch }
  | finish {c : Custody K} (w : Fin K) (fr : ℕ) (rest : List ℕ)
      (htodo : c.fan.todo w = fr :: rest) (hfree : c.fan.last w = none) :
      Step bundled c
        { c with
          fan := c.fan.finish w (decide (c.refs fr - 1 = 0))
          refs := Function.update c.refs fr (c.refs fr - 1)
          life := Function.update c.life (c.use fr)
            ((c.life (c.use fr)).finish w (decide (c.refs fr - 1 = 0) && bundled)) }
  | release {c : Custody K} (w : Fin K) (fr : ℕ) (hlast : c.fan.last w = some fr) :
      Step bundled c
        { c with
          pool := fr :: c.pool
          fan := c.fan.release w
          life := Function.update c.life (c.use fr) (c.life (c.use fr)).release }

/-! ### The invariant -/

/-- The frames whose use is not over, but for a displaced one; oldest use first. -/
def line (c : Custody K) : List ℕ := c.fan.flight ++ c.mixCh ++ c.fresh.toList

/-- A frame in use. -/
def InUse (c : Custody K) (fr : ℕ) : Prop := fr ∈ c.line ∨ c.stale = some fr

/-- What a dispatched frame has been through. -/
def flying (bundled : Bool) (c : Custody K) (fr : ℕ) : Life K where
  dispatched := 1
  done := fun w => if fr ∈ c.fan.todo w then 0 else 1
  bundled := if bundled = true ∧ c.fan.left fr = 0 then 1 else 0
  released := 0

/-- What a use has been through in the end: it was displaced from `mixCh`, or
done by every worker and, in bundled mode, sent. -/
def Over (bundled : Bool) (l : Life K) : Prop :=
  l = ⟨0, fun _ => 0, 0, 1⟩ ∨ l = ⟨1, fun _ => 1, if bundled = true then 1 else 0, 1⟩

/-- Frames, reference counts and uses are where they should be. -/
structure Ok (bundled : Bool) (c : Custody K) : Prop where
  fan : c.fan.Ok
  owned : ∀ fr, c.pool.count fr + c.line.count fr + c.stale.toList.count fr
    + c.collected.count fr = if fr < c.allocated then 1 else 0
  refs : ∀ fr ∈ c.fan.flight, c.refs fr = c.fan.left fr
  sorted : (c.line.map c.use).Pairwise (· < ·)
  use_lt : ∀ fr, c.InUse fr → c.use fr < c.uses
  stale_ne : ∀ old, c.stale = some old → ∀ fr ∈ c.line, c.use fr ≠ c.use old
  waiting : ∀ fr, fr ∈ c.mixCh ∨ c.fresh = some fr ∨ c.stale = some fr →
    c.life (c.use fr) = .new
  flies : ∀ fr ∈ c.fan.flight, c.life (c.use fr) = c.flying bundled fr
  ended : ∀ u < c.uses, (∀ fr, c.InUse fr → c.use fr ≠ u) → Over bundled (c.life u)

variable {bundled : Bool} {c c' : Custody K}

/-! ### Consequences -/

theorem mem_line {fr : ℕ} :
    fr ∈ c.line ↔ fr ∈ c.fan.flight ∨ fr ∈ c.mixCh ∨ c.fresh = some fr := by
  rw [line, List.mem_append, List.mem_append, Option.mem_toList, or_assoc]

/-- A frame that waits to be dispatched or recycled is in use. -/
theorem inUse_of_waiting {fr : ℕ} (h : fr ∈ c.mixCh ∨ c.fresh = some fr ∨ c.stale = some fr) :
    c.InUse fr := by
  rcases h with hmix | hfresh | hstale
  · exact Or.inl (mem_line.mpr (Or.inr (Or.inl hmix)))
  · exact Or.inl (mem_line.mpr (Or.inr (Or.inr hfresh)))
  · exact Or.inr hstale

/-- Different places in the line have different uses. -/
theorem Ok.use_injective (h : Ok bundled c) {fr fr' : ℕ} (hfr : fr ∈ c.line)
    (hfr' : fr' ∈ c.line) (huse : c.use fr = c.use fr') : fr = fr' := by
  have hnodup : (c.line.map c.use).Nodup := h.sorted.imp fun hlt => hlt.ne
  exact List.inj_on_of_nodup_map hnodup hfr hfr' huse

/-- A pooled frame is not in use. -/
theorem Ok.not_inUse_of_pool (h : Ok bundled c) {fr : ℕ} (hpool : fr ∈ c.pool) :
    ¬ c.InUse fr := by
  have hcount := h.owned fr
  have hpos := List.count_pos_iff.mpr hpool
  rintro (hline | hstale)
  · have := List.count_pos_iff.mpr hline
    split at hcount <;> omega
  · rw [hstale, Option.toList_some, List.count_singleton_self] at hcount
    split at hcount <;> omega

/-- No frame beyond those allocated is anywhere. -/
theorem Ok.not_inUse_of_allocated (h : Ok bundled c) : ¬ c.InUse c.allocated := by
  have hcount := h.owned c.allocated
  rw [if_neg (lt_irrefl _)] at hcount
  rintro (hline | hstale)
  · have := List.count_pos_iff.mpr hline
    omega
  · rw [hstale, Option.toList_some, List.count_singleton_self] at hcount
    omega

/-- Nothing stands in the line twice, nor in the line and displaced. -/
theorem Ok.line_nodup (h : Ok bundled c) : c.line.Nodup :=
  List.Nodup.of_map c.use (h.sorted.imp fun hlt => hlt.ne)

theorem Ok.not_mem_of_line (h : Ok bundled c) {fr : ℕ} {front back : List ℕ}
    (hline : c.line = front ++ fr :: back) : fr ∉ front ++ back := by
  have hnodup := h.line_nodup
  rw [hline, List.nodup_middle] at hnodup
  exact (List.nodup_cons.mp hnodup).1

theorem Ok.stale_not_mem_line (h : Ok bundled c) {old : ℕ} (hstale : c.stale = some old) :
    old ∉ c.line :=
  fun hline => h.stale_ne old hstale old hline rfl

/-- Two frames in use have different uses. -/
theorem Ok.use_ne (h : Ok bundled c) {fr fr' : ℕ} (hfr : fr ∈ c.line) (hfr' : c.InUse fr')
    (hne : fr ≠ fr') : c.use fr ≠ c.use fr' := by
  intro huse
  rcases hfr' with hline | hstale
  · exact hne (h.use_injective hfr hline huse)
  · exact h.stale_ne fr' hstale fr hfr huse

/-- A frame that waits has not been dispatched. -/
theorem Ok.ne_of_waiting (h : Ok bundled c) {fr f : ℕ} (hfr : fr ∈ c.fan.flight)
    (hf : f ∈ c.mixCh ∨ c.fresh = some f ∨ c.stale = some f) : f ≠ fr := by
  rintro rfl
  have hnew := h.waiting f hf
  rw [h.flies f hfr] at hnew
  cases congrArg Life.dispatched hnew

/-- What happens in the use of a frame of the line happens to no other frame in use. -/
theorem Ok.life_update_ne (h : Ok bundled c) {fr f : ℕ} (hfr : fr ∈ c.line) (hf : c.InUse f)
    (hne : f ≠ fr) (l : Life K) :
    Function.update c.life (c.use fr) l (c.use f) = c.life (c.use f) :=
  Function.update_of_ne (h.use_ne hfr hf hne.symm).symm _ _

/-! ### Beginning a use -/

/-- Before anything was allocated. -/
theorem ok_empty (refs : ℕ → ℤ) (use : ℕ → ℕ) (life : ℕ → Life K) :
    Ok bundled
      { allocated := 0, pool := [], collected := [], fresh := none, stale := none, mixCh := [],
        fan := ⟨[], fun _ => [], fun _ => none⟩, refs, use, uses := 0, life } where
  fan := ⟨List.nodup_nil, fun _ => List.nil_suffix, by simp, by simp, by simp⟩
  owned := by simp [line]
  refs := by simp
  sorted := List.Pairwise.nil
  use_lt := by simp [InUse, line]
  stale_ne := by simp
  waiting := by simp
  flies := by simp
  ended := by simp

/-- `SubmitMix` gets hold of a frame that is not in use. -/
theorem Ok.start (h : Ok bundled c) {fr allocated : ℕ} {pool : List ℕ} {refs : ℕ → ℤ}
    (hfresh : c.fresh = none) (hstale : c.stale = none) (hfr : ¬ c.InUse fr)
    (howned : ∀ f, pool.count f + (c.line.count f + [fr].count f) + c.collected.count f
      = if f < allocated then 1 else 0)
    (hrefs : ∀ f ∈ c.fan.flight, refs f = c.refs f) :
    Ok bundled { c with
      allocated := allocated
      pool := pool
      fresh := some fr
      refs := refs
      use := Function.update c.use fr c.uses
      uses := c.uses + 1
      life := Function.update c.life c.uses .new } := by
  have hline : c.fan.flight ++ c.mixCh ++ [fr] = c.line ++ [fr] := by
    rw [line, hfresh, Option.toList_none, List.append_nil]
  -- frames in use keep their use, which is an older one
  have hkeep : ∀ f, c.InUse f → Function.update c.use fr c.uses f = c.use f := by
    intro f hf
    apply Function.update_of_ne
    rintro rfl
    exact hfr hf
  have hlife : ∀ f, c.InUse f →
      Function.update c.life c.uses .new (Function.update c.use fr c.uses f)
        = c.life (c.use f) := by
    intro f hf
    rw [hkeep f hf, Function.update_of_ne (h.use_lt f hf).ne]
  have hin : ∀ {f}, f ∈ c.fan.flight → c.InUse f :=
    fun hf => Or.inl (mem_line.mpr (Or.inl hf))
  refine
    { fan := h.fan
      owned := fun f => ?owned
      refs := fun f hf => ?refs
      sorted := ?sorted
      use_lt := fun f hf => ?use_lt
      stale_ne := fun old hold => ?stale_ne
      waiting := fun f hf => ?waiting
      flies := fun f hf => ?flies
      ended := fun u hu hfree => ?ended }
  case owned =>
    have hcount := howned f
    show pool.count f + (c.fan.flight ++ c.mixCh ++ [fr]).count f + c.stale.toList.count f
      + c.collected.count f = _
    rw [hline, hstale, List.count_append, Option.toList_none, List.count_nil]
    exact hcount
  case refs =>
    exact (hrefs f hf).trans (h.refs f hf)
  case sorted =>
    show ((c.fan.flight ++ c.mixCh ++ [fr]).map (Function.update c.use fr c.uses)).Pairwise _
    rw [hline, List.map_append, List.map_congr_left fun f hf => hkeep f (Or.inl hf),
      List.pairwise_append]
    -- the new use comes after all others
    refine ⟨h.sorted, List.pairwise_singleton _ _, fun u hu v hv => ?_⟩
    obtain ⟨f, hf, rfl⟩ := List.mem_map.mp hu
    rw [List.map_singleton, List.mem_singleton, Function.update_self] at hv
    rw [hv]
    exact h.use_lt f (Or.inl hf)
  case use_lt =>
    show Function.update c.use fr c.uses f < c.uses + 1
    rcases hf with hf | hf
    · change f ∈ c.fan.flight ++ c.mixCh ++ [fr] at hf
      rw [hline, List.mem_append, List.mem_singleton] at hf
      rcases hf with hf | rfl
      · rw [hkeep f (Or.inl hf)]
        exact Nat.lt_succ_of_lt (h.use_lt f (Or.inl hf))
      · rw [Function.update_self]
        exact Nat.lt_succ_self _
    · rw [hkeep f (Or.inr hf)]
      exact Nat.lt_succ_of_lt (h.use_lt f (Or.inr hf))
  case stale_ne =>
    rw [show c.stale = some old from hold] at hstale
    cases hstale
  case waiting =>
    rcases hf with hf | hf | hf
    · exact (hlife f (Or.inl (mem_line.mpr (Or.inr (Or.inl hf))))).trans
        (h.waiting f (Or.inl hf))
    · obtain rfl := Option.some.inj hf
      show Function.update c.life c.uses .new (Function.update c.use fr c.uses fr) = _
      rw [Function.update_self, Function.update_self]
    · exact (hlife f (Or.inr hf)).trans (h.waiting f (Or.inr (Or.inr hf)))
  case flies =>
    exact (hlife f (hin hf)).trans (h.flies f hf)
  case ended =>
    -- a use that is over is not the one that begins
    have hne : u ≠ c.uses := by
      rintro rfl
      apply hfree fr (Or.inl (mem_line.mpr (Or.inr (Or.inr rfl))))
      exact Function.update_self _ _ _
    show Over bundled (Function.update c.life c.uses .new u)
    rw [Function.update_of_ne hne]
    refine h.ended u ((Nat.lt_succ_iff.mp hu).lt_of_ne hne) fun f hf => ?_
    rw [← hkeep f hf]
    apply hfree f
    rcases hf with hf | hf
    · exact Or.inl (by
        show f ∈ c.fan.flight ++ c.mixCh ++ [fr]
        rw [hline]
        exact List.mem_append_left _ hf)
    · exact Or.inr hf

theorem Ok.acquire (h : Ok bundled c) {fr : ℕ} (hfresh : c.fresh = none)
    (hstale : c.stale = none) (hpool : fr ∈ c.pool) :
    Ok bundled { c with
      pool := c.pool.erase fr
      fresh := some fr
      use := Function.update c.use fr c.uses
      uses := c.uses + 1
      life := Function.update c.life c.uses .new } := by
  refine h.start hfresh hstale (h.not_inUse_of_pool hpool) (fun f => ?_) fun f _ => rfl
  have hcount := h.owned f
  rw [hstale, Option.toList_none, List.count_nil, (List.perm_cons_erase hpool).count_eq,
    List.count_cons] at hcount
  rw [List.count_singleton]
  omega

theorem Ok.allocate (h : Ok bundled c) (hfresh : c.fresh = none) (hstale : c.stale = none) :
    Ok bundled { c with
      allocated := c.allocated + 1
      fresh := some c.allocated
      refs := Function.update c.refs c.allocated 0
      use := Function.update c.use c.allocated c.uses
      uses := c.uses + 1
      life := Function.update c.life c.uses .new } := by
  refine h.start hfresh hstale h.not_inUse_of_allocated (fun f => ?_) fun f hf => ?_
  · have hcount := h.owned f
    rw [hstale, Option.toList_none, List.count_nil] at hcount
    rw [List.count_singleton]
    by_cases hf : c.allocated = f
    · subst hf
      rw [if_neg (lt_irrefl _)] at hcount
      rw [if_pos (beq_self_eq_true _), if_pos (Nat.lt_succ_self _)]
      omega
    · rw [if_neg (by simpa using hf), if_congr (Nat.lt_succ_iff_lt_or_eq) rfl rfl]
      simp only [eq_comm (a := f), hf, or_false]
      omega
  · apply Function.update_of_ne
    rintro rfl
    exact h.not_inUse_of_allocated (Or.inl (mem_line.mpr (Or.inl hf)))

/-! ### `pushFrame` -/

theorem Ok.enqueue (h : Ok bundled c) {fr : ℕ} (hfresh : c.fresh = some fr) :
    Ok bundled { c with fresh := none, mixCh := c.mixCh ++ [fr] } := by
  -- the frame keeps its place in the line, so everything else stays as it is
  have hline : line { c with fresh := none, mixCh := c.mixCh ++ [fr] } = c.line := by
    simp only [line, hfresh, Option.toList_none, Option.toList_some, List.append_nil,
      List.append_assoc]
  have hin : ∀ f, InUse { c with fresh := none, mixCh := c.mixCh ++ [fr] } f ↔ c.InUse f := by
    intro f
    rw [InUse, hline]
    rfl
  refine
    { fan := h.fan
      owned := ?owned
      refs := h.refs
      sorted := ?sorted
      use_lt := fun f hf => h.use_lt f ((hin f).mp hf)
      stale_ne := ?stale_ne
      waiting := fun f hf => ?waiting
      flies := h.flies
      ended := fun u hu hfree => h.ended u hu fun f hf => hfree f ((hin f).mpr hf) }
  case owned =>
    rw [hline]
    exact h.owned
  case sorted =>
    rw [hline]
    exact h.sorted
  case stale_ne =>
    rw [hline]
    exact h.stale_ne
  case waiting =>
    rcases hf with hf | hf | hf
    · rcases List.mem_append.mp hf with hf | hf
      · exact h.waiting f (Or.inl hf)
      · rw [List.mem_singleton] at hf
        exact h.waiting f (Or.inr (Or.inl (hfresh.trans (congrArg some hf.symm))))
    · cases hf
    · exact h.waiting f (Or.inr (Or.inr hf))

/-- A frame of the line that has not been dispatched is displaced. -/
theorem Ok.displace (h : Ok bundled c) {old : ℕ} {mixCh : List ℕ} {fresh : Option ℕ}
    (front back : List ℕ) (hstale : c.stale = none) (hline : c.line = front ++ old :: back)
    (hline' : c.fan.flight ++ mixCh ++ fresh.toList = front ++ back)
    (hold : old ∈ c.mixCh ∨ c.fresh = some old) (hmix : ∀ f ∈ mixCh, f ∈ c.mixCh)
    (hfresh : ∀ f, fresh = some f → c.fresh = some f) :
    Ok bundled { c with fresh := fresh, stale := some old, mixCh := mixCh } := by
  have hsub : (front ++ back).Sublist c.line := by
    rw [hline]
    exact List.Sublist.append_left (List.sublist_cons_self old back) front
  have hmem : old ∈ c.line := by
    rw [hline]
    exact List.mem_append_right _ List.mem_cons_self
  have hnot := h.not_mem_of_line hline
  -- out of the line, but still in use: no use is over yet
  have hin : ∀ f, InUse { c with fresh := fresh, stale := some old, mixCh := mixCh } f ↔
      c.InUse f := by
    intro f
    rw [InUse, InUse, line]
    show f ∈ c.fan.flight ++ mixCh ++ fresh.toList ∨ some old = some f ↔ _
    rw [hline', hline, hstale, Option.some.injEq]
    simp only [List.mem_append, List.mem_cons, reduceCtorEq, or_false, eq_comm (a := old)]
    tauto
  refine
    { fan := h.fan
      owned := fun f => ?owned
      refs := h.refs
      sorted := ?sorted
      use_lt := fun f hf => h.use_lt f ((hin f).mp hf)
      stale_ne := fun old' hold' f hf => ?stale_ne
      waiting := fun f hf => ?waiting
      flies := h.flies
      ended := fun u hu hfree => h.ended u hu fun f hf => hfree f ((hin f).mpr hf) }
  case owned =>
    have hcount := h.owned f
    rw [hline, hstale, List.count_append, List.count_cons, Option.toList_none,
      List.count_nil] at hcount
    show c.pool.count f + (c.fan.flight ++ mixCh ++ fresh.toList).count f + [old].count f
      + c.collected.count f = if f < c.allocated then 1 else 0
    rw [hline', List.count_append, List.count_singleton]
    omega
  case sorted =>
    show ((c.fan.flight ++ mixCh ++ fresh.toList).map c.use).Pairwise _
    rw [hline']
    exact h.sorted.sublist (hsub.map c.use)
  case stale_ne =>
    obtain rfl := Option.some.inj hold'
    change f ∈ c.fan.flight ++ mixCh ++ fresh.toList at hf
    rw [hline'] at hf
    intro huse
    obtain rfl := h.use_injective (hsub.subset hf) hmem huse
    exact hnot hf
  case waiting =>
    rcases hf with hf | hf | hf
    · exact h.waiting f (Or.inl (hmix f hf))
    · exact h.waiting f (Or.inr (Or.inl (hfresh f hf)))
    · obtain rfl := Option.some.inj hf
      exact h.waiting old (hold.imp_right Or.inl)

theorem Ok.evict (h : Ok bundled c) {old : ℕ} {rest : List ℕ} (hstale : c.stale = none)
    (hmix : c.mixCh = old :: rest) :
    Ok bundled { c with stale := some old, mixCh := rest } := by
  apply h.displace c.fan.flight (rest ++ c.fresh.toList) hstale
  · rw [line, hmix, List.append_assoc, List.cons_append]
  · rw [List.append_assoc]
  · exact Or.inl (by rw [hmix]; exact List.mem_cons_self)
  · intro f hf
    rw [hmix]
    exact List.mem_cons_of_mem old hf
  · exact fun f hf => hf

theorem Ok.giveUp (h : Ok bundled c) {fr : ℕ} (hfresh : c.fresh = some fr)
    (hstale : c.stale = none) : Ok bundled { c with fresh := none, stale := some fr } := by
  apply h.displace (c.fan.flight ++ c.mixCh) [] hstale
  · rw [line, hfresh, Option.toList_some]
  · rfl
  · exact Or.inr hfresh
  · exact fun f hf => hf
  · intro f hf
    cases hf

/-! ### The pool -/

theorem Ok.recycle (h : Ok bundled c) {old : ℕ} (hstale : c.stale = some old) :
    Ok bundled { c with
      pool := old :: c.pool
      stale := none
      life := Function.update c.life (c.use old) (c.life (c.use old)).release } := by
  have hnew : c.life (c.use old) = .new := h.waiting old (Or.inr (Or.inr hstale))
  -- the line is what it was, and its frames have other uses
  have hkeep : ∀ f ∈ c.line, ∀ l, Function.update c.life (c.use old) l (c.use f)
      = c.life (c.use f) :=
    fun f hf l => Function.update_of_ne (h.stale_ne old hstale f hf) _ _
  refine
    { fan := h.fan
      owned := fun f => ?owned
      refs := h.refs
      sorted := h.sorted
      use_lt := fun f hf => ?use_lt
      stale_ne := fun old' hold' => ?stale_ne
      waiting := fun f hf => ?waiting
      flies := fun f hf => ?flies
      ended := fun u hu hfree => ?ended }
  case owned =>
    have hcount := h.owned f
    rw [hstale, Option.toList_some, List.count_singleton] at hcount
    show (old :: c.pool).count f + c.line.count f + ([] : List ℕ).count f
      + c.collected.count f = if f < c.allocated then 1 else 0
    rw [List.count_cons, List.count_nil]
    omega
  case use_lt =>
    rcases hf with hf | hf
    · exact h.use_lt f (Or.inl hf)
    · cases hf
  case stale_ne =>
    cases hold'
  case waiting =>
    have hf' : f ∈ c.line := by
      rcases hf with hf | hf | hf
      · exact mem_line.mpr (Or.inr (Or.inl hf))
      · exact mem_line.mpr (Or.inr (Or.inr hf))
      · cases hf
    refine (hkeep f hf' _).trans (h.waiting f ?_)
    rcases hf with hf | hf | hf
    · exact Or.inl hf
    · exact Or.inr (Or.inl hf)
    · cases hf
  case flies =>
    exact (hkeep f (mem_line.mpr (Or.inl hf)) _).trans (h.flies f hf)
  case ended =>
    by_cases huse : u = c.use old
    · rw [huse]
      show Over bundled (Function.update c.life (c.use old) _ (c.use old))
      -- the use that ends was displaced: it was never dispatched
      rw [Function.update_self, hnew]
      exact Or.inl rfl
    · show Over bundled (Function.update c.life (c.use old) _ u)
      rw [Function.update_of_ne huse]
      refine h.ended u hu fun f hf => ?_
      rcases hf with hf | hf
      · exact hfree f (Or.inl hf)
      · obtain rfl := Option.some.inj (hstale.symm.trans hf)
        exact Ne.symm huse

theorem Ok.collect (h : Ok bundled c) {fr : ℕ} (hpool : fr ∈ c.pool) :
    Ok bundled { c with pool := c.pool.erase fr, collected := fr :: c.collected } := by
  refine ⟨h.fan, fun f => ?_, h.refs, h.sorted, h.use_lt, h.stale_ne, h.waiting, h.flies,
    h.ended⟩
  have hcount := h.owned f
  rw [(List.perm_cons_erase hpool).count_eq, List.count_cons] at hcount
  show (c.pool.erase fr).count f + c.line.count f + c.stale.toList.count f
    + (fr :: c.collected).count f = if f < c.allocated then 1 else 0
  rw [List.count_cons]
  omega

/-! ### The workers -/

theorem Ok.dispatch (h : Ok bundled c) (hK : 0 < K) {fr : ℕ} {rest : List ℕ}
    (hmix : c.mixCh = fr :: rest) :
    Ok bundled { c with
      mixCh := rest
      fan := c.fan.dispatch fr
      refs := Function.update c.refs fr K
      life := Function.update c.life (c.use fr) (c.life (c.use fr)).dispatch } := by
  have hwaiting : fr ∈ c.mixCh := by
    rw [hmix]
    exact List.mem_cons_self
  have hmem : fr ∈ c.line := mem_line.mpr (Or.inr (Or.inl hwaiting))
  have hline : c.fan.flight ++ [fr] ++ rest ++ c.fresh.toList = c.line := by
    rw [line, hmix, List.append_assoc c.fan.flight [fr] rest, List.singleton_append]
  -- in particular it is not in flight yet: no worker has it to do
  have hnot : fr ∉ c.fan.flight ++ (rest ++ c.fresh.toList) :=
    h.not_mem_of_line (by rw [line, hmix, List.append_assoc, List.cons_append])
  have hflight : fr ∉ c.fan.flight := fun hin => hnot (List.mem_append_left _ hin)
  refine
    { fan := h.fan.dispatch hK hflight
      owned := fun f => ?owned
      refs := fun f hf => ?refs
      sorted := ?sorted
      use_lt := fun f hf => ?use_lt
      stale_ne := fun old hold f hf => ?stale_ne
      waiting := fun f hf => ?waiting
      flies := fun f hf => ?flies
      ended := fun u hu hfree => ?ended }
  case owned =>
    have hcount := h.owned f
    rw [← hline] at hcount
    exact hcount
  case refs =>
    show Function.update c.refs fr (K : ℤ) f = ((c.fan.dispatch fr).left f : ℤ)
    by_cases hfr : f = fr
    · rw [hfr, Function.update_self, Fan.left_dispatch_self]
    · have hf' : f ∈ c.fan.flight :=
        (List.mem_append.mp hf).resolve_right fun hin => hfr (List.mem_singleton.mp hin)
      rw [Function.update_of_ne hfr, Fan.left_dispatch_ne _ hfr]
      exact h.refs f hf'
  case sorted =>
    show ((c.fan.flight ++ [fr] ++ rest ++ c.fresh.toList).map c.use).Pairwise _
    rw [hline]
    exact h.sorted
  case use_lt =>
    change f ∈ c.fan.flight ++ [fr] ++ rest ++ c.fresh.toList ∨ _ at hf
    rw [hline] at hf
    exact h.use_lt f hf
  case stale_ne =>
    change f ∈ c.fan.flight ++ [fr] ++ rest ++ c.fresh.toList at hf
    rw [hline] at hf
    exact h.stale_ne old hold f hf
  case waiting =>
    have hw : f ∈ c.mixCh ∨ c.fresh = some f ∨ c.stale = some f := by
      rw [hmix]
      exact hf.imp_left (List.mem_cons_of_mem fr)
    have hne : f ≠ fr := by
      rintro rfl
      rcases hf with hf | hf | hf
      · exact hnot (List.mem_append_right _ (List.mem_append_left _ hf))
      · exact hnot (List.mem_append_right _ (List.mem_append_right _ (Option.mem_toList.mpr hf)))
      · exact h.stale_not_mem_line hf hmem
    exact (h.life_update_ne hmem (inUse_of_waiting hw) hne _).trans (h.waiting f hw)
  case flies =>
    show Function.update c.life (c.use fr) _ (c.use f) = _
    by_cases hfr : f = fr
    · subst hfr
      rw [Function.update_self, h.waiting f (Or.inl hwaiting)]
      -- with a worker at all, somebody is left to do it
      have hleft : (c.fan.dispatch f).left f ≠ 0 := by
        rw [Fan.left_dispatch_self]
        exact hK.ne'
      ext
      · rfl
      · show 0 = if f ∈ c.fan.todo _ ++ [f] then 0 else 1
        rw [if_pos (List.mem_append_right _ (List.mem_singleton_self f))]
      · exact (if_neg fun hb => hleft hb.2).symm
      · rfl
    · have hf' : f ∈ c.fan.flight :=
        (List.mem_append.mp hf).resolve_right fun hin => hfr (List.mem_singleton.mp hin)
      rw [h.life_update_ne hmem (Or.inl (mem_line.mpr (Or.inl hf'))) hfr, h.flies f hf']
      ext
      · rfl
      · simp [flying, Fan.dispatch, hfr]
      · simp [flying, Fan.left_dispatch_ne _ hfr]
      · rfl
  case ended =>
    have hne : u ≠ c.use fr := by
      rintro rfl
      refine hfree fr (Or.inl ?_) rfl
      show fr ∈ c.fan.flight ++ [fr] ++ rest ++ c.fresh.toList
      rw [hline]
      exact hmem
    show Over bundled (Function.update c.life (c.use fr) _ u)
    rw [Function.update_of_ne hne]
    refine h.ended u hu fun f hf => hfree f ?_
    show f ∈ c.fan.flight ++ [fr] ++ rest ++ c.fresh.toList ∨ _
    rw [hline]
    exact hf

theorem Ok.finish (h : Ok bundled c) {w : Fin K} {fr : ℕ} {rest : List ℕ}
    (htodo : c.fan.todo w = fr :: rest) (hfree : c.fan.last w = none) :
    Ok bundled { c with
      fan := c.fan.finish w (decide (c.refs fr - 1 = 0))
      refs := Function.update c.refs fr (c.refs fr - 1)
      life := Function.update c.life (c.use fr)
        ((c.life (c.use fr)).finish w (decide (c.refs fr - 1 = 0) && bundled)) } := by
  have hin : fr ∈ c.fan.todo w := by
    rw [htodo]
    exact List.mem_cons_self
  have hflight : fr ∈ c.fan.flight := h.fan.mem_flight (Fan.mem_held.mpr (Or.inr hin))
  have hmem : fr ∈ c.line := mem_line.mpr (Or.inl hflight)
  have hrefs := h.refs fr hflight
  -- the count comes to zero just if this worker is the only one left
  have hlast : decide (c.refs fr - 1 = 0) = true ↔ c.fan.left fr = 1 := by
    rw [decide_eq_true_iff]
    omega
  generalize decide (c.refs fr - 1 = 0) = isLast at hlast ⊢
  have hself := h.fan.left_finish_self htodo isLast
  refine
    { fan := h.fan.finish hfree htodo hlast
      owned := h.owned
      refs := fun f hf => ?refs
      sorted := h.sorted
      use_lt := h.use_lt
      stale_ne := h.stale_ne
      waiting := fun f hf => ?waiting
      flies := fun f hf => ?flies
      ended := fun u hu hfree' => ?ended }
  case refs =>
    show Function.update c.refs fr (c.refs fr - 1) f = ((c.fan.finish w isLast).left f : ℤ)
    by_cases hfr : f = fr
    · rw [hfr, Function.update_self]
      omega
    · rw [Function.update_of_ne hfr, h.fan.left_finish_ne htodo isLast hfr]
      exact h.refs f hf
  case waiting =>
    have hne : f ≠ fr := h.ne_of_waiting hflight hf
    exact (h.life_update_ne hmem (inUse_of_waiting hf) hne _).trans (h.waiting f hf)
  case flies =>
    show Function.update c.life (c.use fr) _ (c.use f) = _
    by_cases hfr : f = fr
    · subst hfr
      rw [Function.update_self, h.flies f hf]
      ext w'
      · rfl
      · -- the worker has done it now; the others are where they were
        simp only [Life.finish, flying, h.fan.mem_todo_finish htodo, and_true]
        by_cases hw : w' = w
        · subst hw
          simp [hin]
        · simp [hw]
      · -- nobody is left just if this was the last
        have hpos : c.fan.left f ≠ 0 := by omega
        have hzero : (c.fan.finish w isLast).left f = 0 ↔ isLast = true := by
          rw [hlast]
          omega
        simp only [Life.finish, flying, hpos, hzero, false_and, if_false, zero_add,
          Bool.and_eq_true, and_comm (a := bundled = true)]
      · rfl
    · rw [h.life_update_ne hmem (Or.inl (mem_line.mpr (Or.inl hf))) hfr, h.flies f hf]
      ext w'
      · rfl
      · simp [flying, h.fan.mem_todo_finish htodo, hfr]
      · simp [flying, h.fan.left_finish_ne htodo isLast hfr]
      · rfl
  case ended =>
    have hne : u ≠ c.use fr := by
      rintro rfl
      exact hfree' fr (Or.inl hmem) rfl
    show Over bundled (Function.update c.life (c.use fr) _ u)
    rw [Function.update_of_ne hne]
    exact h.ended u hu hfree'

theorem Ok.release (h : Ok bundled c) {w : Fin K} {fr : ℕ} (hlast : c.fan.last w = some fr) :
    Ok bundled { c with
      pool := fr :: c.pool
      fan := c.fan.release w
      life := Function.update c.life (c.use fr) (c.life (c.use fr)).release } := by
  have hall := h.fan.todo_of_last hlast
  have hflight := h.fan.flight_release hlast
  have hfr : fr ∈ c.fan.flight := by
    rw [hall]
    exact List.mem_cons_self
  -- the frame released is the first of the line
  have hline : c.line = fr :: ((c.fan.release w).flight ++ c.mixCh ++ c.fresh.toList) := by
    rw [hflight, line, hall, List.cons_append, List.cons_append]
  have hmem : fr ∈ c.line := mem_line.mpr (Or.inl hfr)
  have hnot : fr ∉ (c.fan.release w).flight ++ c.mixCh ++ c.fresh.toList :=
    @Ok.not_mem_of_line _ _ _ h fr [] _ hline
  have hsub : ∀ f ∈ (c.fan.release w).flight ++ c.mixCh ++ c.fresh.toList,
      f ∈ c.line ∧ f ≠ fr := by
    intro f hf
    refine ⟨by rw [hline]; exact List.mem_cons_of_mem fr hf, ?_⟩
    rintro rfl
    exact hnot hf
  refine
    { fan := h.fan.release hlast
      owned := fun f => ?owned
      refs := fun f hf => ?refs
      sorted := ?sorted
      use_lt := fun f hf => ?use_lt
      stale_ne := fun old hold f hf => ?stale_ne
      waiting := fun f hf => ?waiting
      flies := fun f hf => ?flies
      ended := fun u hu hfree => ?ended }
  case owned =>
    have hcount := h.owned f
    rw [hline, List.count_cons] at hcount
    show (fr :: c.pool).count f
      + ((c.fan.release w).flight ++ c.mixCh ++ c.fresh.toList).count f
      + c.stale.toList.count f + c.collected.count f = if f < c.allocated then 1 else 0
    rw [List.count_cons]
    omega
  case refs =>
    apply h.refs f
    rw [hall]
    exact List.mem_cons_of_mem fr (hflight ▸ hf)
  case sorted =>
    have hsorted := h.sorted
    rw [hline, List.map_cons] at hsorted
    exact (List.pairwise_cons.mp hsorted).2
  case use_lt =>
    rcases hf with hf | hf
    · exact h.use_lt f (Or.inl (hsub f hf).1)
    · exact h.use_lt f (Or.inr hf)
  case stale_ne =>
    exact h.stale_ne old hold f (hsub f hf).1
  case waiting =>
    have hne : f ≠ fr := h.ne_of_waiting hfr hf
    exact (h.life_update_ne hmem (inUse_of_waiting hf) hne _).trans (h.waiting f hf)
  case flies =>
    have hf' := hsub f (List.mem_append_left _ (List.mem_append_left _ hf))
    refine (h.life_update_ne hmem (Or.inl hf'.1) hf'.2 _).trans (h.flies f ?_)
    rw [hall]
    exact List.mem_cons_of_mem fr (hflight ▸ hf)
  case ended =>
    show Over bundled (Function.update c.life (c.use fr) _ u)
    by_cases huse : u = c.use fr
    · -- its use is over: nobody has the frame to do any more
      rw [huse, Function.update_self, h.flies fr hfr]
      have hdone := h.fan.done w fr hlast
      apply Or.inr
      ext w'
      · rfl
      · exact if_neg (hdone w')
      · exact if_congr (and_iff_left (Fan.left_eq_zero_iff.mpr hdone)) rfl rfl
      · rfl
    · rw [Function.update_of_ne huse]
      -- the frames that leave use are just the one released
      refine h.ended u hu fun f hf => ?_
      by_cases hne : f = fr
      · rw [hne]
        exact Ne.symm huse
      · apply hfree f
        rcases hf with hf | hf
        · rw [hline] at hf
          exact Or.inl ((List.mem_cons.mp hf).resolve_left hne)
        · exact Or.inr hf

/-- **Every transition keeps everything in its place.** -/
theorem Ok.step (hK : 0 < K) (h : Ok bundled c) (hstep : Step bundled c c') : Ok bundled c' := by
  cases hstep with
  | acquire fr hfresh hstale hpool => exact h.acquire hfresh hstale hpool
  | allocate hfresh hstale => exact h.allocate hfresh hstale
  | enqueue fr hfresh => exact h.enqueue hfresh
  | evict old rest hstale hmix => exact h.evict hstale hmix
  | giveUp fr hfresh hstale => exact h.giveUp hfresh hstale
  | recycle old hstale => exact h.recycle hstale
  | collect fr hpool => exact h.collect hpool
  | dispatch fr rest hmix => exact h.dispatch hK hmix
  | finish w fr rest htodo hfree => exact h.finish htodo hfree
  | release w fr hlast => exact h.release hlast

end Custody

end Pipeline

end AmbiRTC
