/-
AmbiRTC/AssemblyOrder.lean

What reaches the playback worklet.  Sixteenth planes, timeouts and evictions end
frames in any order; a frame is dispatched only if it is later than every one
dispatched before.

    assembled_throughout : Throughout (step cfg) (Assembled cfg) (start cfg) as
-/
import AmbiRTC.AssemblySteps

namespace AmbiRTC.Assembly

open Runs Rx

variable {α : Type}

/-- A plane made up for channel `c`: silence, or an earlier output of the channel
faded. -/
def MadeUp (cfg : Config α) (outputs : List (Output α)) (c : Channel) (plane : List α) : Prop :=
  (∃ n, plane = List.replicate n cfg.silence) ∨
    ∃ o ∈ outputs, o.chIdx = c ∧ ∃ h, 0 < h ∧ h ≤ plcMaxHolds ∧ plane = o.pcm.map (cfg.fade h)

/-- A message has sixteen planes, each decoded for its channel and timestamp or
made up. -/
def Message.Proper (cfg : Config α) (decoded earlier : List (Output α)) (m : Message α) : Prop :=
  ∀ c, ∃ plane, m.channels c = some plane ∧
    (⟨c, m.timestamp, plane⟩ ∈ decoded ∨ MadeUp cfg (earlier ++ decoded) c plane)

/-- What the receiver guarantees between two resets. -/
structure Assembled (cfg : Config α) (s : State α) : Prop where
  increasing : s.rx.posted.Pairwise fun m m' => m.timestamp < m'.timestamp
  planes : ∀ m ∈ s.rx.posted, m.Proper cfg s.decoded s.earlier
  oneCell : ∀ i j k, s.rx.frameRing i = some k → s.rx.frameRing j = some k → i = j
  notPooled : ∀ i k, s.rx.frameRing i = some k → k ∉ s.rx.frameSlotPool
  pooledOnce : s.rx.frameSlotPool.Nodup

namespace Rx

variable {cfg : Config α} {s s' : Rx α} {i k : ℕ} {c : Channel} {frameTs : ℤ}
  {decoded earlier : List (Output α)}

/-! ### Slots have one owner -/

/-- A slot is in one cell of the ring, or once in the pool, or nowhere. -/
structure Owned (s : Rx α) : Prop where
  oneCell : ∀ i j k, s.frameRing i = some k → s.frameRing j = some k → i = j
  notPooled : ∀ i k, s.frameRing i = some k → k ∉ s.frameSlotPool
  pooledOnce : s.frameSlotPool.Nodup
  ringMade : ∀ i k, s.frameRing i = some k → k < s.made
  poolMade : ∀ k ∈ s.frameSlotPool, k < s.made

theorem owned_new : Owned (Rx.new cfg) where
  oneCell := fun _ _ _ h => nomatch h
  notPooled := fun _ _ h => nomatch h
  pooledOnce := List.nodup_reverse.mpr List.nodup_range
  ringMade := fun _ _ h => nomatch h
  poolMade := fun _ hk => List.mem_range.mp (List.mem_reverse.mp hk)

/-- Who owns a slot is a matter of the ring, the pool and the slots made. -/
theorem Owned.congr (hs : Owned s) (hring : s'.frameRing = s.frameRing)
    (hpool : s'.frameSlotPool = s.frameSlotPool) (hmade : s'.made = s.made) : Owned s' where
  oneCell := by
    rw [hring]
    exact hs.oneCell
  notPooled := by
    rw [hring, hpool]
    exact hs.notPooled
  pooledOnce := by
    rw [hpool]
    exact hs.pooledOnce
  ringMade := by
    rw [hring, hmade]
    exact hs.ringMade
  poolMade := by
    rw [hpool, hmade]
    exact hs.poolMade

theorem Owned.sameFrames (hs : Owned s) (h : SameFrames s s') : Owned s' :=
  hs.congr h.ring h.pool h.made

/-- A cell that still has a slot after a frame has ended. -/
theorem Ended.of_ring (h : Ended cfg s s' i k) {i' k' : ℕ} (hk' : s'.frameRing i' = some k') :
    i' ≠ i ∧ s.frameRing i' = some k' := by
  rw [h.ring] at hk'
  by_cases hi : i' = i
  · subst hi
    rw [Function.update_self] at hk'
    cases hk'
  · rw [Function.update_of_ne hi] at hk'
    exact ⟨hi, hk'⟩

/-- It is another slot. -/
theorem Owned.ne_of_ended (hs : Owned s) (hcell : s.frameRing i = some k)
    (h : Ended cfg s s' i k) {i' k' : ℕ} (hk' : s'.frameRing i' = some k') : k' ≠ k := by
  rintro rfl
  obtain ⟨hi, hold⟩ := h.of_ring hk'
  exact hi (hs.oneCell i' i k' hold hcell)

theorem Owned.slots_ended (hs : Owned s) (hcell : s.frameRing i = some k)
    (h : Ended cfg s s' i k) {i' k' : ℕ} (hk' : s'.frameRing i' = some k') :
    s'.slots k' = s.slots k' := by
  rw [h.slots, Function.update_of_ne (hs.ne_of_ended hcell h hk')]

theorem Owned.ended (hs : Owned s) (hcell : s.frameRing i = some k) (h : Ended cfg s s' i k) :
    Owned s' where
  oneCell i₁ i₂ k' h₁ h₂ := hs.oneCell i₁ i₂ k' (h.of_ring h₁).2 (h.of_ring h₂).2
  notPooled i' k' hk' := by
    have hold := hs.notPooled i' k' (h.of_ring hk').2
    rcases h.pool with hpool | hpool
    · rw [hpool, List.mem_cons, not_or]
      exact ⟨hs.ne_of_ended hcell h hk', hold⟩
    · rwa [hpool]
  pooledOnce := by
    rcases h.pool with hpool | hpool
    · rw [hpool]
      exact List.nodup_cons.mpr ⟨hs.notPooled i k hcell, hs.pooledOnce⟩
    · rw [hpool]
      exact hs.pooledOnce
  ringMade i' k' hk' := by
    rw [h.made]
    exact hs.ringMade i' k' (h.of_ring hk').2
  poolMade k' hk' := by
    rw [h.made]
    rcases h.pool with hpool | hpool
    · rw [hpool] at hk'
      rcases List.mem_cons.mp hk' with rfl | hk'
      · exact hs.ringMade i k' hcell
      · exact hs.poolMade k' hk'
    · rw [hpool] at hk'
      exact hs.poolMade k' hk'

/-- A slot to be opened is in no cell. -/
theorem Owned.not_ring (hs : Owned s) (h : Opened s s' frameTs i k) (i' : ℕ) :
    s.frameRing i' ≠ some k := by
  intro hk
  rcases h.source with ⟨hpool, -⟩ | ⟨rfl, -⟩
  · exact hs.notPooled i' k hk (by rw [hpool]; exact List.mem_cons_self)
  · exact Nat.lt_irrefl _ (hs.ringMade i' _ hk)

/-- A frame that is there already keeps its slot as it is. -/
theorem Owned.slots_opened (hs : Owned s) (h : Opened s s' frameTs i k) {i' k' : ℕ}
    (hcell : s.frameRing i' = some k') : s'.slots k' = s.slots k' := by
  apply h.slots
  rintro rfl
  exact hs.not_ring h i' hcell

/-- A cell after a frame has been opened. -/
theorem Opened.of_ring (h : Opened s s' frameTs i k) {i' k' : ℕ}
    (hk' : s'.frameRing i' = some k') :
    (i' = i ∧ k' = k) ∨ (i' ≠ i ∧ s.frameRing i' = some k') := by
  rw [h.ring] at hk'
  by_cases hi : i' = i
  · subst hi
    rw [Function.update_self] at hk'
    exact Or.inl ⟨rfl, (Option.some.inj hk').symm⟩
  · rw [Function.update_of_ne hi] at hk'
    exact Or.inr ⟨hi, hk'⟩

theorem Opened.made_le (h : Opened s s' frameTs i k) : s.made ≤ s'.made := by
  rcases h.source with ⟨-, hmade⟩ | ⟨-, -, hmade⟩
  · exact hmade.ge
  · exact hmade.symm ▸ Nat.le_succ _

theorem Opened.pool_sublist (h : Opened s s' frameTs i k) :
    s'.frameSlotPool.Sublist s.frameSlotPool := by
  rcases h.source with ⟨hpool, -⟩ | ⟨-, hpool, -⟩
  · rw [hpool]
    exact List.sublist_cons_self _ _
  · rw [hpool]

theorem Owned.opened (hs : Owned s) (h : Opened s s' frameTs i k) : Owned s' where
  oneCell i₁ i₂ k' h₁ h₂ := by
    rcases h.of_ring h₁ with ⟨rfl, rfl⟩ | ⟨hi₁, hold₁⟩
    · rcases h.of_ring h₂ with ⟨rfl, -⟩ | ⟨-, hold₂⟩
      · rfl
      · exact absurd hold₂ (hs.not_ring h i₂)
    · rcases h.of_ring h₂ with ⟨rfl, rfl⟩ | ⟨-, hold₂⟩
      · exact absurd hold₁ (hs.not_ring h i₁)
      · exact hs.oneCell i₁ i₂ k' hold₁ hold₂
  notPooled i' k' hk' := by
    rcases h.of_ring hk' with ⟨rfl, rfl⟩ | ⟨-, hold⟩
    -- the slot came from the pool, or is new
    · rcases h.source with ⟨hpool, -⟩ | ⟨rfl, hpool, -⟩
      · have hnodup := hs.pooledOnce
        rw [hpool] at hnodup
        exact (List.nodup_cons.mp hnodup).1
      · rw [hpool]
        intro hmem
        exact Nat.lt_irrefl _ (hs.poolMade _ hmem)
    · intro hmem
      exact hs.notPooled i' k' hold (h.pool_sublist.subset hmem)
  pooledOnce := hs.pooledOnce.sublist h.pool_sublist
  ringMade i' k' hk' := by
    rcases h.of_ring hk' with ⟨rfl, rfl⟩ | ⟨-, hold⟩
    · rcases h.source with ⟨hpool, hmade⟩ | ⟨rfl, -, hmade⟩
      · rw [hmade]
        exact hs.poolMade k' (by rw [hpool]; exact List.mem_cons_self)
      · rw [hmade]
        exact Nat.lt_succ_self _
    · exact (hs.ringMade i' k' hold).trans_le h.made_le
  poolMade k' hk' := (hs.poolMade k' (h.pool_sublist.subset hk')).trans_le h.made_le

/-! ### Frames in the ring -/

/-- A frame in the ring is in the cell of its timestamp, and its planes were
decoded for it. -/
structure Collected (cfg : Config α) (decoded : List (Output α)) (s : Rx α) : Prop where
  cell : ∀ i k, s.frameRing i = some k → ringIdx cfg (s.slots k).frameTs = i
  planes : ∀ i k c plane, s.frameRing i = some k → (s.slots k).data c = some plane →
    ⟨c, (s.slots k).frameTs, plane⟩ ∈ decoded

theorem Collected.sameFrames (hs : Collected cfg decoded s) (h : SameFrames s s') :
    Collected cfg decoded s' := by
  obtain ⟨hcell, hplanes⟩ := hs
  rw [← h.ring, ← h.slots] at hcell hplanes
  exact ⟨hcell, hplanes⟩

theorem Collected.mono (hs : Collected cfg decoded s) {decoded' : List (Output α)}
    (h : decoded ⊆ decoded') : Collected cfg decoded' s :=
  ⟨hs.cell, fun i k c plane hk hplane => h (hs.planes i k c plane hk hplane)⟩

theorem Collected.ended (hs : Collected cfg decoded s) (howned : Owned s)
    (hcell : s.frameRing i = some k) (h : Ended cfg s s' i k) : Collected cfg decoded s' := by
  constructor
  · intro i' k' hk'
    rw [howned.slots_ended hcell h hk']
    exact hs.cell i' k' (h.of_ring hk').2
  · intro i' k' c plane hk' hplane
    rw [howned.slots_ended hcell h hk'] at hplane ⊢
    exact hs.planes i' k' c plane (h.of_ring hk').2 hplane

theorem Collected.opened (hs : Collected cfg decoded s) (howned : Owned s)
    (h : Opened s s' frameTs (ringIdx cfg frameTs) k) : Collected cfg decoded s' := by
  constructor
  · intro i' k' hk'
    rcases h.of_ring hk' with ⟨rfl, rfl⟩ | ⟨-, hold⟩
    · rw [h.frameTs]
    · rw [howned.slots_opened h hold]
      exact hs.cell i' k' hold
  · intro i' k' c plane hk' hplane
    rcases h.of_ring hk' with ⟨rfl, rfl⟩ | ⟨-, hold⟩
    · rw [h.data] at hplane
      cases hplane
    · rw [howned.slots_opened h hold] at hplane ⊢
      exact hs.planes i' k' c plane hold hplane

theorem Collected.stored (hs : Collected cfg decoded s) {mono : List α}
    (h : Stored s s' k c mono) (hdecoded : ⟨c, (s.slots k).frameTs, mono⟩ ∈ decoded) :
    Collected cfg decoded s' := by
  constructor
  · intro i' k' hk'
    rw [h.ring] at hk'
    rw [h.slots]
    by_cases hk : k' = k
    · subst hk
      rw [Function.update_self]
      exact hs.cell i' k' hk'
    · rw [Function.update_of_ne hk]
      exact hs.cell i' k' hk'
  · intro i' k' c' plane hk' hplane
    rw [h.ring] at hk'
    rw [h.slots] at hplane ⊢
    by_cases hk : k' = k
    · subst hk
      rw [Function.update_self] at hplane ⊢
      by_cases hc : c' = c
      · subst hc
        obtain rfl : mono = plane := by simpa [FrameSlot.add] using hplane
        exact hdecoded
      · simp only [FrameSlot.add, Function.update_of_ne hc] at hplane
        exact hs.planes i' k' c' plane hk' hplane
    · rw [Function.update_of_ne hk] at hplane ⊢
      exact hs.planes i' k' c' plane hk' hplane

theorem Tidy.opened (hs : Tidy s) (howned : Owned s) (h : Opened s s' frameTs i k) : Tidy s' := by
  constructor
  · intro i' k' hk'
    rcases h.of_ring hk' with ⟨rfl, rfl⟩ | ⟨-, hold⟩
    · rw [h.count]
      exact Nat.succ_pos 15
    · rw [howned.slots_opened h hold]
      exact hs.count i' k' hold
  · intro i' k' hk'
    rcases h.of_ring hk' with ⟨rfl, rfl⟩ | ⟨-, hold⟩
    · rw [h.count, FrameSlot.filled_eq_zero h.data]
    · rw [howned.slots_opened h hold]
      exact hs.filled i' k' hold
  · intro k' hk' c
    have hne : k' ≠ k := by
      rintro rfl
      exact (howned.opened h).notPooled i k' (by rw [h.ring, Function.update_self]) hk'
    rw [h.slots k' hne]
    exact hs.clean k' (h.pool_sublist.subset hk') c

theorem Tidy.stored (hs : Tidy s) (howned : Owned s) {mono : List α} (h : Stored s s' k c mono)
    (hcell : s.frameRing i = some k) (hnone : (s.slots k).data c = none)
    (hcount : (s.slots k).count + 1 ≠ 16) : Tidy s' := by
  constructor
  · intro i' k' hk'
    rw [h.ring] at hk'
    rw [h.slots]
    by_cases hk : k' = k
    · subst hk
      rw [Function.update_self]
      exact lt_of_le_of_ne (hs.count i' k' hk') hcount
    · rw [Function.update_of_ne hk]
      exact hs.count i' k' hk'
  · intro i' k' hk'
    rw [h.ring] at hk'
    rw [h.slots]
    by_cases hk : k' = k
    · subst hk
      rw [Function.update_self, FrameSlot.filled_add hnone, hs.filled i' k' hk']
      rfl
    · rw [Function.update_of_ne hk]
      exact hs.filled i' k' hk'
  · intro k' hk' c'
    rw [h.pool] at hk'
    -- the slot stored in is in a cell, so it is not pooled
    have hne : k' ≠ k := by
      rintro rfl
      exact howned.notPooled i k' hcell hk'
    rw [h.slots, Function.update_of_ne hne]
    exact hs.clean k' hk' c'

theorem Owned.stored (hs : Owned s) {mono : List α} (h : Stored s s' k c mono) : Owned s' :=
  hs.congr h.ring h.pool h.made

/-! ### What is posted -/

/-- What has been posted is increasing, no later than the last frame flushed, and
made of what was decoded. -/
structure Posting (cfg : Config α) (decoded earlier : List (Output α)) (s : Rx α) : Prop where
  increasing : s.posted.Pairwise fun m m' => m.timestamp < m'.timestamp
  below : ∀ m ∈ s.posted, m.timestamp ≤ s.lastFlushedTs
  planes : ∀ m ∈ s.posted, m.Proper cfg decoded earlier

/-- What is kept for concealment was decoded. -/
def Good (outputs : List (Output α)) (s : Rx α) : Prop :=
  ∀ c lg, s.lastGoodPcm c = some lg → ∃ o ∈ outputs, o.chIdx = c ∧ o.pcm = lg

theorem madeUp_mono {outputs outputs' : List (Output α)} {plane : List α}
    (h : MadeUp cfg outputs c plane) (hsub : outputs ⊆ outputs') : MadeUp cfg outputs' c plane := by
  rcases h with hsilence | ⟨o, ho, hfaded⟩
  · exact Or.inl hsilence
  · exact Or.inr ⟨o, hsub ho, hfaded⟩

theorem Posting.mono (hs : Posting cfg decoded earlier s) {decoded' : List (Output α)}
    (h : decoded ⊆ decoded') : Posting cfg decoded' earlier s where
  increasing := hs.increasing
  below := hs.below
  planes m hm c := by
    obtain ⟨plane, hplane, hsource⟩ := hs.planes m hm c
    refine ⟨plane, hplane, hsource.imp (fun hmem => h hmem) fun hmade => madeUp_mono hmade ?_⟩
    exact List.append_subset.mpr ⟨List.subset_append_left _ _,
      fun o ho => List.mem_append_right _ (h ho)⟩

theorem Posting.untouched (hs : Posting cfg decoded earlier s)
    (hflushed : s'.lastFlushedTs = s.lastFlushedTs) (hposted : s'.posted = s.posted) :
    Posting cfg decoded earlier s' where
  increasing := by
    rw [hposted]
    exact hs.increasing
  below := by
    rw [hposted, hflushed]
    exact hs.below
  planes := by
    rw [hposted]
    exact hs.planes

/-- **A later frame** is dispatched. -/
theorem Posting.dispatched (hs : Posting cfg decoded earlier s) {m : Message α}
    (hnew : s.lastFlushedTs < m.timestamp) (hproper : m.Proper cfg decoded earlier)
    (hflushed : s'.lastFlushedTs = m.timestamp) (hposted : s'.posted = s.posts m) :
    Posting cfg decoded earlier s' := by
  -- all that was posted is older than the new frame
  have hbelow : ∀ m' ∈ s.posted, m'.timestamp < m.timestamp :=
    fun m' hm' => (hs.below m' hm').trans_lt hnew
  -- posted if there is a worklet, dropped otherwise
  unfold posts at hposted
  split at hposted
  · constructor
    · rw [hposted]
      refine List.pairwise_append.mpr ⟨hs.increasing, List.pairwise_singleton _ _, ?_⟩
      intro m' hm' m'' hm''
      rw [List.mem_singleton.mp hm'']
      exact hbelow m' hm'
    · intro m' hm'
      rw [hposted] at hm'
      rw [hflushed]
      rcases List.mem_append.mp hm' with hm' | hm'
      · exact (hbelow m' hm').le
      · exact (congrArg Message.timestamp (List.mem_singleton.mp hm')).le
    · intro m' hm'
      rw [hposted] at hm'
      rcases List.mem_append.mp hm' with hm' | hm'
      · exact hs.planes m' hm'
      · rw [List.mem_singleton.mp hm']
        exact hproper
  · constructor
    · rw [hposted]
      exact hs.increasing
    · intro m' hm'
      rw [hposted] at hm'
      rw [hflushed]
      exact (hbelow m' hm').le
    · rw [hposted]
      exact hs.planes

theorem Good.concealment {outputs : List (Output α)} (hs : Good outputs s) {frameSize : ℕ}
    {plane : List α} (h : Concealment cfg s frameSize c plane) : MadeUp cfg outputs c plane := by
  rcases h with hsilence | ⟨lg, n, hlg, hn⟩
  · exact Or.inl ⟨frameSize, hsilence⟩
  · obtain ⟨o, ho, hchan, rfl⟩ := hs c lg hlg
    exact Or.inr ⟨o, ho, hchan, n, hn⟩

theorem Good.kept {outputs : List (Output α)} (hs : Good outputs s) {mono : List α} {ts : ℤ}
    (hmem : ⟨c, ts, mono⟩ ∈ outputs)
    (hgood : s'.lastGoodPcm = s.lastGoodPcm ∨
      s'.lastGoodPcm = Function.update s.lastGoodPcm c (some mono)) : Good outputs s' := by
  intro c' lg hlg
  rcases hgood with hgood | hgood
  · rw [hgood] at hlg
    exact hs c' lg hlg
  · rw [hgood] at hlg
    by_cases hc : c' = c
    · subst hc
      rw [Function.update_self] at hlg
      exact ⟨_, hmem, rfl, Option.some.inj hlg⟩
    · rw [Function.update_of_ne hc] at hlg
      exact hs c' lg hlg

/-! ### The invariant -/

/-- The receiver between two resets. -/
structure Valid (cfg : Config α) (decoded earlier : List (Output α)) (s : Rx α) : Prop where
  tidy : Tidy s
  owned : Owned s
  collected : Collected cfg decoded s
  posting : Posting cfg decoded earlier s
  good : Good (earlier ++ decoded) s

theorem valid_new : Valid cfg [] [] (Rx.new cfg) where
  tidy := tidy_new
  owned := owned_new
  collected := ⟨fun _ _ h => (nomatch h), fun _ _ _ _ h => (nomatch h)⟩
  posting := ⟨List.Pairwise.nil, fun _ h => (nomatch h), fun _ h => (nomatch h)⟩
  good := fun _ _ h => nomatch h

theorem Valid.mono (hs : Valid cfg decoded earlier s) {decoded' : List (Output α)}
    (h : decoded ⊆ decoded') : Valid cfg decoded' earlier s where
  tidy := hs.tidy
  owned := hs.owned
  collected := hs.collected.mono h
  posting := hs.posting.mono h
  good c lg hlg := by
    obtain ⟨o, ho, hkept⟩ := hs.good c lg hlg
    refine ⟨o, ?_, hkept⟩
    exact List.mem_append.mpr ((List.mem_append.mp ho).imp_right fun ho => h ho)

theorem Valid.same (hs : Valid cfg decoded earlier s) (h : Same s s') :
    Valid cfg decoded earlier s' where
  tidy := hs.tidy.sameFrames h.toSameFrames
  owned := hs.owned.sameFrames h.toSameFrames
  collected := hs.collected.sameFrames h.toSameFrames
  posting := hs.posting.untouched h.lastFlushedTs h.posted
  good := by
    have hgood := hs.good
    unfold Good at hgood ⊢
    rwa [h.lastGoodPcm]

/-- A frame the receiver has made up for, as far as it had to. -/
theorem Valid.proper (hs : Valid cfg decoded earlier s) (hcell : s.frameRing i = some k)
    {data : Channel → Option (List α)} (hdata : Concealed cfg s (s.slots k) data) :
    Message.Proper cfg decoded earlier ⟨(s.slots k).frameTs, data⟩ := by
  intro c
  obtain ⟨plane, hplane, hsource⟩ := hdata c
  refine ⟨plane, hplane, hsource.imp ?_ ?_⟩
  · exact fun hslot => hs.collected.planes i k c plane hcell hslot
  · exact fun hmade => hs.good.concealment hmade.2

theorem Valid.flushed (hs : Valid cfg decoded earlier s) (h : Flushed cfg s frameTs s') :
    Valid cfg decoded earlier s' := by
  have hgood : s'.lastGoodPcm = s.lastGoodPcm → Good (earlier ++ decoded) s' := by
    intro heq
    have hold := hs.good
    unfold Good at hold ⊢
    rwa [heq]
  have hgone := hs.tidy.flushed h
  cases h with
  | idle => exact hs
  | late hcell _ _ hended hflushed hposted hkept =>
    exact ⟨hgone, hs.owned.ended hcell hended, hs.collected.ended hs.owned hcell hended,
      hs.posting.untouched hflushed hposted, hgood hkept⟩
  | dispatched hcell hts hnew hdata hended hflushed hposted hkept =>
    have hproper := hs.proper hcell hdata
    rw [hts] at hproper
    exact ⟨hgone, hs.owned.ended hcell hended, hs.collected.ended hs.owned hcell hended,
      hs.posting.dispatched hnew hproper hflushed hposted, hgood hkept⟩

theorem Valid.opened (hs : Valid cfg decoded earlier s)
    (h : Opened s s' frameTs (ringIdx cfg frameTs) k) : Valid cfg decoded earlier s' where
  tidy := hs.tidy.opened hs.owned h
  owned := hs.owned.opened h
  collected := hs.collected.opened hs.owned h
  posting := hs.posting.untouched h.untouched.lastFlushedTs h.untouched.posted
  good := by
    have hgood := hs.good
    unfold Good at hgood ⊢
    rwa [h.untouched.lastGoodPcm]

theorem Valid.chosen (hs : Valid cfg decoded earlier s) (h : Chosen cfg s frameTs s' k) :
    Valid cfg decoded earlier s' ∧ s'.frameRing (ringIdx cfg frameTs) = some k ∧
      (s'.slots k).frameTs = frameTs := by
  cases h with
  | found hcell hts => exact ⟨hs, hcell, hts⟩
  | opened _ h => exact ⟨hs.opened h, by rw [h.ring, Function.update_self], h.frameTs⟩
  | evicted _ _ hflush h =>
    exact ⟨(hs.flushed hflush).opened h, by rw [h.ring, Function.update_self], h.frameTs⟩

theorem Valid.heard (hs : Valid cfg decoded earlier s) {mono : List α}
    (hmem : ⟨c, frameTs, mono⟩ ∈ decoded) (h : Heard cfg s c frameTs mono s') :
    Valid cfg decoded earlier s' := by
  cases h with
  | ignored => exact hs
  | @stored s₁ _ k _ _ hchosen hnone hcount hstored =>
    obtain ⟨hs₁, hcell, hts⟩ := hs.chosen hchosen
    have hmem' : ⟨c, (s₁.slots k).frameTs, mono⟩ ∈ decoded := by rwa [hts]
    exact ⟨hs₁.tidy.stored hs₁.owned hstored hcell hnone hcount, hs₁.owned.stored hstored,
      hs₁.collected.stored hstored hmem',
      hs₁.posting.untouched hstored.lastFlushedTs hstored.posted,
      hs₁.good.kept (List.mem_append_right _ hmem) hstored.lastGoodPcm⟩
  | @completed _ k _ hnew hcell hts _ _ hfull hended hflushed hposted hgood =>
    have hproper : Message.Proper cfg decoded earlier ⟨frameTs, ((s.slots k).add c mono).data⟩ := by
      intro c'
      obtain ⟨plane, hplane⟩ := Option.isSome_iff_exists.mp (hfull c')
      refine ⟨plane, hplane, Or.inl ?_⟩
      -- the plane of this output; the others were collected before
      by_cases hc : c' = c
      · subst hc
        obtain rfl : mono = plane := by simpa [FrameSlot.add] using hplane
        exact hmem
      · simp only [FrameSlot.add, Function.update_of_ne hc] at hplane
        have hplanes := hs.collected.planes _ k c' plane hcell hplane
        rwa [hts] at hplanes
    exact ⟨hs.tidy.ended hended, hs.owned.ended hcell hended,
      hs.collected.ended hs.owned hcell hended,
      hs.posting.dispatched hnew hproper hflushed hposted,
      hs.good.kept (List.mem_append_right _ hmem) hgood⟩

/-! ### Reset -/

/-- The loop of the reset. -/
theorem resetCells (cells : List ℕ) (htidy : Tidy s) (howned : Owned s) :
    Tidy (cells.foldl (fun s i => s.resetCell cfg i) s) ∧
      Owned (cells.foldl (fun s i => s.resetCell cfg i) s) ∧
      (cells.foldl (fun s i => s.resetCell cfg i) s).lastGoodPcm = s.lastGoodPcm ∧
      ∀ i k, (cells.foldl (fun s i => s.resetCell cfg i) s).frameRing i = some k →
        s.frameRing i = some k ∧ i ∉ cells := by
  induction cells generalizing s with
  | nil => exact ⟨htidy, howned, rfl, fun i k hk => ⟨hk, List.not_mem_nil⟩⟩
  | cons i cells ih =>
    rw [List.foldl_cons]
    rcases @resetCell_cases α cfg s i with ⟨hnone, heq⟩ | ⟨k, hcell, hended, hgood⟩
    · rw [heq]
      obtain ⟨htidy', howned', hgood', hring⟩ := ih htidy howned
      refine ⟨htidy', howned', hgood', fun i' k' hk' => ⟨(hring i' k' hk').1, ?_⟩⟩
      rw [List.mem_cons, not_or]
      refine ⟨?_, (hring i' k' hk').2⟩
      rintro rfl
      rw [(hring i' k' hk').1] at hnone
      cases hnone
    · obtain ⟨htidy', howned', hgood', hring⟩ :=
        ih (htidy.ended hended) (howned.ended hcell hended)
      refine ⟨htidy', howned', hgood'.trans hgood, fun i' k' hk' => ?_⟩
      obtain ⟨hi, hold⟩ := hended.of_ring (hring i' k' hk').1
      exact ⟨hold, List.mem_cons.not.mpr (not_or.mpr ⟨hi, (hring i' k' hk').2⟩)⟩

/-- After a reset the ring is empty, and all outputs are earlier ones. -/
theorem Valid.reset (hs : Valid cfg decoded earlier s) :
    Valid cfg [] (earlier ++ decoded) { s.resetRxAssembly cfg with posted := [] } := by
  have hcells := @resetCells α cfg s (List.range rxFramePoolSize) hs.tidy hs.owned
  unfold resetRxAssembly
  generalize (List.range rxFramePoolSize).foldl (fun s i => s.resetCell cfg i) s = s' at hcells ⊢
  obtain ⟨htidy, howned, hgood, hring⟩ := hcells
  have hempty : ∀ i k, s'.frameRing i ≠ some k := by
    intro i k hk
    obtain ⟨hold, hout⟩ := hring i k hk
    apply hout
    rw [List.mem_range, ← hs.collected.cell i k hold]
    exact ringIdx_lt _
  constructor
  case tidy => exact ⟨htidy.count, htidy.filled, htidy.clean⟩
  case owned =>
    exact ⟨howned.oneCell, howned.notPooled, howned.pooledOnce, howned.ringMade, howned.poolMade⟩
  case collected =>
    exact ⟨fun i k hk => absurd hk (hempty i k), fun i k _ _ hk => absurd hk (hempty i k)⟩
  case posting => exact ⟨List.Pairwise.nil, fun _ h => (nomatch h), fun _ h => (nomatch h)⟩
  case good =>
    intro c lg hlg
    rw [List.append_nil]
    exact hs.good c lg (hgood ▸ hlg)

end Rx

/-! ### Runs -/

variable {cfg : Config α} {s s' : State α} {a : Action α}

/-- **One step.** -/
theorem valid_step (hs : Rx.Valid cfg s.decoded s.earlier s.rx) (h : step cfg s a = some s') :
    Rx.Valid cfg s'.decoded s'.earlier s'.rx := by
  cases hs.tidy.step_cases h with
  | push h₀ | mark h₀ | recorded h₀ => exact hs.same h₀
  | output h₀ hheard =>
    refine ((hs.same h₀).mono (List.subset_append_left _ _)).heard ?_ hheard
    exact List.mem_append_right _ (List.mem_singleton_self _)
  | timeout _ h₀ hflush => exact (hs.same h₀).flushed hflush
  | graph =>
    exact ⟨hs.tidy.sameFrames ⟨rfl, rfl, rfl, rfl⟩, hs.owned.sameFrames ⟨rfl, rfl, rfl, rfl⟩,
      hs.collected.sameFrames ⟨rfl, rfl, rfl, rfl⟩, hs.posting.untouched rfl rfl, hs.good⟩
  | reset => exact hs.reset

theorem valid_run {as : List (Action α)} (h : Run (step cfg) (start cfg) as s) :
    Rx.Valid cfg s.decoded s.earlier s.rx :=
  h.invariant (I := fun s => Rx.Valid cfg s.decoded s.earlier s.rx)
    (fun _ _ _ hs h => valid_step hs h) valid_new

/-- **In order and complete.**  Whatever decoders and timers do, between two resets
what is posted is strictly increasing and made of sixteen planes each, and no slot
has two owners. -/
theorem assembled_throughout (cfg : Config α) (as : List (Action α)) :
    Throughout (step cfg) (Assembled cfg) (start cfg) as := by
  intro as₁ as₂ s has hrun
  have hs := valid_run hrun
  exact ⟨hs.posting.increasing, hs.posting.planes, hs.owned.oneCell, hs.owned.notPooled,
    hs.owned.pooledOnce⟩

end AmbiRTC.Assembly
