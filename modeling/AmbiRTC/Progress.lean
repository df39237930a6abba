/-
AmbiRTC/Progress.lean

How far each frame is encoded: a second abstract model of the encode pipeline.
It keeps the line of frames in use, what frames and their uses contain, and for
each worker and frame the channels the worker has still to encode; it forgets
reference counts, queues and packets.

Main results: `Ok` relates what was encoded to what is still pending, and what
frames contain to what their uses were given; every transition keeps it
(`Ok.step`).
-/
import AmbiRTC.Pipeline

namespace AmbiRTC

namespace Pipeline

variable {A : Type} {K : ℕ}

/-! ### Who encodes which channel -/

theorem mem_channelRange {w : Fin K} {c : ℕ} :
    c ∈ channelRange K w ↔ w.val * channels / K ≤ c ∧ c < (w.val + 1) * channels / K := by
  have hle : w.val * channels / K ≤ (w.val + 1) * channels / K :=
    Nat.div_le_div_right (Nat.mul_le_mul_right _ (Nat.le_succ _))
  rw [channelRange, List.mem_range'_1]
  omega

theorem channelRange_nodup (w : Fin K) : (channelRange K w).Nodup := List.nodup_range'

theorem lt_of_mem_channelRange {w : Fin K} {c : ℕ} (h : c ∈ channelRange K w) : c < channels := by
  have hle : (w.val + 1) * channels ≤ K * channels := Nat.mul_le_mul_right _ w.isLt
  have hK : 0 < K := lt_of_le_of_lt (Nat.zero_le _) w.isLt
  calc c < (w.val + 1) * channels / K := (mem_channelRange.mp h).2
    _ ≤ K * channels / K := Nat.div_le_div_right hle
    _ = channels := Nat.mul_div_cancel_left _ hK

/-- Ranges of different workers do not overlap: one ends before the other begins. -/
theorem channelRange_lt {w w' : Fin K} (hw : w < w') {c c' : ℕ} (hc : c ∈ channelRange K w)
    (hc' : c' ∈ channelRange K w') : c < c' := by
  have hle : (w.val + 1) * channels / K ≤ w'.val * channels / K :=
    Nat.div_le_div_right (Nat.mul_le_mul_right _ hw)
  exact (mem_channelRange.mp hc).2.trans_le (hle.trans (mem_channelRange.mp hc').1)

/-- **One worker owns each channel.** -/
theorem owner_unique {w w' : Fin K} {c : ℕ} (hc : c ∈ channelRange K w)
    (hc' : c ∈ channelRange K w') : w = w' := by
  rcases lt_trichotomy w w' with hlt | heq | hgt
  · exact absurd (channelRange_lt hlt hc hc') (lt_irrefl c)
  · exact heq
  · exact absurd (channelRange_lt hgt hc' hc) (lt_irrefl c)

/-- **Every channel has an owner.** -/
theorem exists_owner (hK : 0 < K) {c : ℕ} (hc : c < channels) : ∃ w, c ∈ channelRange K w := by
  -- the last worker whose range begins at `c` or before
  have hpos : 0 < (c + 1) * K := Nat.mul_pos (Nat.succ_pos c) hK
  have hlt : ((c + 1) * K - 1) / channels < K := by
    rw [Nat.div_lt_iff_lt_mul (by decide), mul_comm K]
    have : (c + 1) * K ≤ channels * K := Nat.mul_le_mul_right K hc
    omega
  have hdiv := Nat.div_add_mod ((c + 1) * K - 1) channels
  have hmod := Nat.mod_lt ((c + 1) * K - 1) (show 0 < channels by decide)
  generalize ((c + 1) * K - 1) / channels = w at hlt hdiv
  refine ⟨⟨w, hlt⟩, mem_channelRange.mpr ⟨?_, ?_⟩⟩
  · apply Nat.lt_succ_iff.mp
    rw [Nat.div_lt_iff_lt_mul hK, mul_comm]
    show channels * w < (c + 1) * K
    omega
  · apply Nat.lt_of_succ_le
    rw [Nat.le_div_iff_mul_le hK, mul_comm _ channels, mul_add, mul_one]
    show (c + 1) * K ≤ channels * w + channels
    omega

/-! ### The model -/

/-- What frames and uses contain, and what is still to be encoded. -/
@[ext]
structure Progress (A : Type) (K : ℕ) where
  /-- the frames in use that may still be encoded, oldest use first -/
  line : List ℕ
  /-- the frame `SubmitMix` has not filled yet, and what it is going to put there -/
  unfilled : Option (ℕ × (ℕ → A))
  /-- the channels of a frame a worker has still to encode -/
  pending : Fin K → ℕ → List ℕ
  pcm : ℕ → ℕ → A
  encoded : ℕ → ℕ → List UInt8
  use : ℕ → ℕ
  uses : ℕ
  /-- the PCM each use was given -/
  given : ℕ → ℕ → A
  /-- what was encoded in each use, and with which result -/
  results : ℕ → ℕ → Option (A × Option (List UInt8))

namespace Progress

/-- Put a payload into a frame, if there is one. -/
def store (encoded : ℕ → List UInt8) (c : ℕ) : Option (List UInt8) → ℕ → List UInt8
  | none => encoded
  | some payload => Function.update encoded c payload

/-- The payload that encoding a channel came to; a failure leaves none. -/
def outcome : Option (A × Option (List UInt8)) → List UInt8
  | some (_, some payload) => payload
  | _ => []

/-- How encoding goes on. -/
inductive Step (bundled : Bool) : Progress A K → Progress A K → Prop
  | start {p : Progress A K} (fr : ℕ) (pcm oldPcm : ℕ → A) (old : ℕ → List UInt8)
      (hfr : fr ∉ p.line) (hunfilled : p.unfilled = none) :
      Step bundled p
        { line := p.line ++ [fr]
          unfilled := some (fr, pcm)
          pending := fun w => Function.update (p.pending w) fr (channelRange K w)
          pcm := Function.update p.pcm fr oldPcm
          encoded := Function.update p.encoded fr (if bundled then fun _ => [] else old)
          use := Function.update p.use fr p.uses
          uses := p.uses + 1
          given := Function.update p.given p.uses pcm
          results := Function.update p.results p.uses fun _ => none }
  | fill {p : Progress A K} (fr : ℕ) (pcm : ℕ → A) (hunfilled : p.unfilled = some (fr, pcm)) :
      Step bundled p { p with unfilled := none, pcm := Function.update p.pcm fr pcm }
  | leave {p : Progress A K} (line : List ℕ) (pending : Fin K → ℕ → List ℕ)
      (hsub : line.Sublist p.line) (hpending : ∀ w, ∀ fr ∈ line, pending w fr = p.pending w fr)
      (hunfilled : ∀ fr pcm, p.unfilled = some (fr, pcm) → fr ∈ line) :
      Step bundled p { p with line := line, pending := pending }
  | encode {p : Progress A K} (w : Fin K) (fr c : ℕ) (cs : List ℕ) (result : Option (List UInt8))
      (hfr : fr ∈ p.line) (hfilled : ∀ pcm, p.unfilled ≠ some (fr, pcm))
      (hpending : p.pending w fr = c :: cs)
      (hfirst : ∀ f ∈ p.line, c ∈ p.pending w f → p.use fr ≤ p.use f) :
      Step bundled p
        { p with
          pending := Function.update p.pending w (Function.update (p.pending w) fr cs)
          encoded := if bundled then Function.update p.encoded fr (store (p.encoded fr) c result)
            else p.encoded
          results := Function.update p.results (p.use fr)
            (Function.update (p.results (p.use fr)) c (some (p.pcm fr c, result))) }

/-! ### The invariant -/

/-- What is encoded, what is not, and from what. -/
structure Ok (bundled : Bool) (p : Progress A K) : Prop where
  sorted : (p.line.map p.use).Pairwise (· < ·)
  use_lt : ∀ fr ∈ p.line, p.use fr < p.uses
  suffix : ∀ w, ∀ fr ∈ p.line, p.pending w fr <:+ channelRange K w
  unencoded : ∀ fr ∈ p.line, ∀ w, ∀ c ∈ channelRange K w,
    p.results (p.use fr) c = none ↔ c ∈ p.pending w fr
  unborn : ∀ u c, p.uses ≤ u → p.results u c = none
  earlier : ∀ u c w, ∀ fr ∈ p.line, p.results u c ≠ none → c ∈ p.pending w fr → u < p.use fr
  unfilled : ∀ fr pcm, p.unfilled = some (fr, pcm) → fr ∈ p.line ∧ p.given (p.use fr) = pcm
  filled : ∀ fr ∈ p.line, (∀ pcm, p.unfilled ≠ some (fr, pcm)) → p.pcm fr = p.given (p.use fr)
  source : ∀ u c x r, p.results u c = some (x, r) → x = p.given u c
  stored : bundled = true → ∀ fr ∈ p.line, ∀ c,
    p.encoded fr c = outcome (p.results (p.use fr) c)

variable {bundled : Bool} {p p' : Progress A K}

theorem Ok.use_injective (h : Ok bundled p) {fr fr' : ℕ} (hfr : fr ∈ p.line)
    (hfr' : fr' ∈ p.line) (huse : p.use fr = p.use fr') : fr = fr' := by
  have hnodup : (p.line.map p.use).Nodup := h.sorted.imp fun hlt => hlt.ne
  exact List.inj_on_of_nodup_map hnodup hfr hfr' huse

/-- Before anything was submitted. -/
theorem ok_empty (pending : Fin K → ℕ → List ℕ) (pcm : ℕ → ℕ → A) (encoded : ℕ → ℕ → List UInt8)
    (use : ℕ → ℕ) (given : ℕ → ℕ → A) :
    Ok bundled
      { line := [], unfilled := none, pending, pcm, encoded, use, uses := 0, given,
        results := fun _ _ => none } where
  sorted := List.Pairwise.nil
  use_lt := by simp
  suffix := by simp
  unencoded := by simp
  unborn := by simp
  earlier := by simp
  unfilled := by simp
  filled := by simp
  source := by simp
  stored := by simp

/-! ### The transitions -/

theorem Ok.start (h : Ok bundled p) {fr : ℕ} {pcm oldPcm : ℕ → A} {old : ℕ → List UInt8}
    (hfr : fr ∉ p.line) (hunfilled : p.unfilled = none) :
    Ok bundled
      { line := p.line ++ [fr]
        unfilled := some (fr, pcm)
        pending := fun w => Function.update (p.pending w) fr (channelRange K w)
        pcm := Function.update p.pcm fr oldPcm
        encoded := Function.update p.encoded fr (if bundled then fun _ => [] else old)
        use := Function.update p.use fr p.uses
        uses := p.uses + 1
        given := Function.update p.given p.uses pcm
        results := Function.update p.results p.uses fun _ => none } := by
  have hne : ∀ {f}, f ∈ p.line → f ≠ fr := by
    rintro f hf rfl
    exact hfr hf
  have huse : ∀ {f}, f ∈ p.line → Function.update p.use fr p.uses f = p.use f :=
    fun hf => Function.update_of_ne (hne hf) _ _
  -- the new use has nothing to its record yet, as before
  have hresults : Function.update p.results p.uses (fun _ => none) = p.results := by
    rw [Function.update_eq_self_iff]
    funext c
    exact (h.unborn p.uses c (le_refl _)).symm
  have hgiven : ∀ {u}, u < p.uses → Function.update p.given p.uses pcm u = p.given u :=
    fun hu => Function.update_of_ne hu.ne _ _
  rw [hresults]
  refine
    { sorted := ?sorted
      use_lt := fun f hf => ?use_lt
      suffix := fun w f hf => ?suffix
      unencoded := fun f hf w c hc => ?unencoded
      unborn := fun u c hu => ?unborn
      earlier := fun u c w f hf hu hc => ?earlier
      unfilled := fun f pcm' hpcm => ?unfilled
      filled := fun f hf hfilled => ?filled
      source := fun u c x r hr => ?source
      stored := fun hb f hf c => ?stored }
  case sorted =>
    show ((p.line ++ [fr]).map (Function.update p.use fr p.uses)).Pairwise _
    rw [List.map_append, List.map_congr_left fun f hf => huse hf, List.pairwise_append]
    refine ⟨h.sorted, List.pairwise_singleton _ _, fun u hu v hv => ?_⟩
    obtain ⟨f, hf, rfl⟩ := List.mem_map.mp hu
    rw [List.map_singleton, List.mem_singleton, Function.update_self] at hv
    rw [hv]
    exact h.use_lt f hf
  case use_lt =>
    show Function.update p.use fr p.uses f < p.uses + 1
    rcases List.mem_append.mp hf with hf | hf
    · rw [huse hf]
      exact Nat.lt_succ_of_lt (h.use_lt f hf)
    · rw [List.mem_singleton.mp hf, Function.update_self]
      exact Nat.lt_succ_self _
  case suffix =>
    show Function.update (p.pending w) fr _ f <:+ _
    rcases List.mem_append.mp hf with hf | hf
    · rw [Function.update_of_ne (hne hf)]
      exact h.suffix w f hf
    · rw [List.mem_singleton.mp hf, Function.update_self]
  case unencoded =>
    show p.results (Function.update p.use fr p.uses f) c = none
      ↔ c ∈ Function.update (p.pending w) fr _ f
    rcases List.mem_append.mp hf with hf | hf
    · rw [huse hf, Function.update_of_ne (hne hf)]
      exact h.unencoded f hf w c hc
    · rw [List.mem_singleton.mp hf, Function.update_self, Function.update_self,
        h.unborn p.uses c (le_refl _)]
      exact iff_of_true rfl hc
  case unborn =>
    exact h.unborn u c (Nat.le_of_succ_le hu)
  case earlier =>
    show u < Function.update p.use fr p.uses f
    change c ∈ Function.update (p.pending w) fr _ f at hc
    rcases List.mem_append.mp hf with hf | hf
    · rw [Function.update_of_ne (hne hf)] at hc
      rw [huse hf]
      exact h.earlier u c w f hf hu hc
    · -- only earlier uses have anything on record
      rw [List.mem_singleton.mp hf, Function.update_self]
      by_contra hle
      exact hu (h.unborn u c (not_lt.mp hle))
  case unfilled =>
    obtain ⟨rfl, rfl⟩ := Prod.mk.inj (Option.some.inj hpcm)
    refine ⟨List.mem_append_right _ (List.mem_singleton_self fr), ?_⟩
    show Function.update p.given p.uses pcm (Function.update p.use fr p.uses fr) = pcm
    rw [Function.update_self, Function.update_self]
  case filled =>
    show Function.update p.pcm fr oldPcm f
      = Function.update p.given p.uses pcm (Function.update p.use fr p.uses f)
    rcases List.mem_append.mp hf with hf | hf
    · rw [Function.update_of_ne (hne hf), huse hf, hgiven (h.use_lt f hf)]
      exact h.filled f hf fun pcm' => by rw [hunfilled]; exact fun hnone => by cases hnone
    · -- the new frame is still to be filled
      exact absurd (by rw [List.mem_singleton.mp hf]) (hfilled pcm)
  case source =>
    show x = Function.update p.given p.uses pcm u c
    have hu : u < p.uses := by
      by_contra hle
      rw [h.unborn u c (not_lt.mp hle)] at hr
      cases hr
    rw [hgiven hu]
    exact h.source u c x r hr
  case stored =>
    show Function.update p.encoded fr _ f c
      = outcome (p.results (Function.update p.use fr p.uses f) c)
    rcases List.mem_append.mp hf with hf | hf
    · rw [Function.update_of_ne (hne hf), huse hf]
      exact h.stored hb f hf c
    · -- bundled mode begins a use with empty payloads and an empty record
      rw [List.mem_singleton.mp hf, Function.update_self, Function.update_self,
        h.unborn p.uses c (le_refl _), hb]
      rfl

theorem Ok.fill (h : Ok bundled p) {fr : ℕ} {pcm : ℕ → A}
    (hunfilled : p.unfilled = some (fr, pcm)) :
    Ok bundled { p with unfilled := none, pcm := Function.update p.pcm fr pcm } := by
  refine
    { sorted := h.sorted
      use_lt := h.use_lt
      suffix := h.suffix
      unencoded := h.unencoded
      unborn := h.unborn
      earlier := h.earlier
      unfilled := fun f pcm' hpcm' => ?unfilled
      filled := fun f hf _ => ?filled
      source := h.source
      stored := h.stored }
  case unfilled =>
    cases hpcm'
  case filled =>
    show Function.update p.pcm fr pcm f = p.given (p.use f)
    by_cases hfr : f = fr
    · rw [hfr, Function.update_self]
      exact (h.unfilled fr pcm hunfilled).2.symm
    · -- the frame that waited was `fr`, so this one has its PCM already
      rw [Function.update_of_ne hfr]
      refine h.filled f hf fun pcm' hpcm' => hfr ?_
      exact (congrArg Prod.fst (Option.some.inj (hunfilled.symm.trans hpcm'))).symm

theorem Ok.leave (h : Ok bundled p) {line : List ℕ} {pending : Fin K → ℕ → List ℕ}
    (hsub : line.Sublist p.line) (hpending : ∀ w, ∀ fr ∈ line, pending w fr = p.pending w fr)
    (hunfilled : ∀ fr pcm, p.unfilled = some (fr, pcm) → fr ∈ line) :
    Ok bundled { p with line := line, pending := pending } where
  sorted := h.sorted.sublist (hsub.map p.use)
  use_lt f hf := h.use_lt f (hsub.subset hf)
  suffix w f hf := by
    show pending w f <:+ _
    rw [hpending w f hf]
    exact h.suffix w f (hsub.subset hf)
  unencoded f hf w c hc := by
    show _ ↔ c ∈ pending w f
    rw [hpending w f hf]
    exact h.unencoded f (hsub.subset hf) w c hc
  unborn := h.unborn
  earlier u c w f hf hu hc := by
    change c ∈ pending w f at hc
    rw [hpending w f hf] at hc
    exact h.earlier u c w f (hsub.subset hf) hu hc
  unfilled f pcm hpcm := ⟨hunfilled f pcm hpcm, (h.unfilled f pcm hpcm).2⟩
  filled f hf := h.filled f (hsub.subset hf)
  source := h.source
  stored hb f hf := h.stored hb f (hsub.subset hf)

/-- An entry of a table of tables is replaced. -/
theorem update_update_apply {ι κ β : Type*} [DecidableEq ι] [DecidableEq κ] (f : ι → κ → β)
    (i : ι) (j : κ) (v : β) (i' : ι) (j' : κ) :
    Function.update f i (Function.update (f i) j v) i' j'
      = if i' = i ∧ j' = j then v else f i' j' := by
  by_cases hi : i' = i
  · subst hi
    rw [Function.update_self]
    by_cases hj : j' = j
    · rw [hj, Function.update_self, if_pos ⟨rfl, rfl⟩]
    · rw [Function.update_of_ne hj, if_neg fun hboth => hj hboth.2]
  · rw [Function.update_of_ne hi, if_neg fun hboth => hi hboth.1]

section Encoded

variable (h : Ok bundled p) {w : Fin K} {fr c : ℕ} {cs : List ℕ} (hfr : fr ∈ p.line)
  (hpending : p.pending w fr = c :: cs)

include h hfr hpending

/-- What is pending once a channel has been encoded. -/
theorem Ok.mem_encoded (w' : Fin K) (f c' : ℕ) (hf : f ∈ p.line) :
    c' ∈ Function.update p.pending w (Function.update (p.pending w) fr cs) w' f ↔
      c' ∈ p.pending w' f ∧ ¬ (f = fr ∧ c' = c) := by
  have hsuffix := h.suffix w fr hfr
  rw [hpending] at hsuffix
  have hnodup := (channelRange_nodup w).sublist hsuffix.sublist
  rw [update_update_apply]
  by_cases hw : w' = w
  · subst hw
    by_cases hffr : f = fr
    · subst hffr
      rw [if_pos ⟨rfl, rfl⟩, hpending, List.mem_cons]
      constructor
      · intro hin
        refine ⟨Or.inr hin, ?_⟩
        rintro ⟨-, rfl⟩
        exact (List.nodup_cons.mp hnodup).1 hin
      · rintro ⟨rfl | hin, hne⟩
        · exact absurd ⟨rfl, rfl⟩ hne
        · exact hin
    · rw [if_neg fun hboth => hffr hboth.2]
      exact (and_iff_left fun hboth => hffr hboth.1).symm
  · -- no other worker has this channel to encode, of any frame
    rw [if_neg fun hboth => hw hboth.1]
    refine (and_iff_left_of_imp fun hin hboth => hw ?_).symm
    rw [hboth.2] at hin
    exact owner_unique ((h.suffix w' f hf).subset hin) (hsuffix.subset List.mem_cons_self)

theorem Ok.suffix_encoded (w' : Fin K) (f : ℕ) (hf : f ∈ p.line) :
    Function.update p.pending w (Function.update (p.pending w) fr cs) w' f
      <:+ channelRange K w' := by
  rw [update_update_apply]
  split
  case isTrue hboth =>
    obtain ⟨rfl, rfl⟩ := hboth
    have hsuffix := h.suffix w' f hfr
    rw [hpending] at hsuffix
    exact (List.suffix_cons c cs).trans hsuffix
  case isFalse => exact h.suffix w' f hf

end Encoded

theorem Ok.encode (h : Ok bundled p) {w : Fin K} {fr c : ℕ} {cs : List ℕ}
    {result : Option (List UInt8)} (hfr : fr ∈ p.line)
    (hfilled : ∀ pcm, p.unfilled ≠ some (fr, pcm)) (hpending : p.pending w fr = c :: cs)
    (hfirst : ∀ f ∈ p.line, c ∈ p.pending w f → p.use fr ≤ p.use f) :
    Ok bundled
      { p with
        pending := Function.update p.pending w (Function.update (p.pending w) fr cs)
        encoded := if bundled then Function.update p.encoded fr (store (p.encoded fr) c result)
          else p.encoded
        results := Function.update p.results (p.use fr)
          (Function.update (p.results (p.use fr)) c (some (p.pcm fr c, result))) } := by
  -- the worker owns the channel, and has not encoded it before
  have hsuffix := h.suffix w fr hfr
  rw [hpending] at hsuffix
  have hc : c ∈ channelRange K w := hsuffix.subset List.mem_cons_self
  have hnone : p.results (p.use fr) c = none := by
    rw [h.unencoded fr hfr w c hc, hpending]
    exact List.mem_cons_self
  have hmem := h.mem_encoded hfr hpending
  have hresults := fun u c' => update_update_apply p.results (p.use fr) c
    (some (p.pcm fr c, result)) u c'
  have hsuffix' := h.suffix_encoded hfr hpending
  -- from here on only these three facts about the updates matter
  generalize Function.update p.pending w (Function.update (p.pending w) fr cs) = pending'
    at hmem hsuffix' ⊢
  generalize Function.update p.results (p.use fr)
    (Function.update (p.results (p.use fr)) c (some (p.pcm fr c, result))) = results'
    at hresults ⊢
  refine
    { sorted := h.sorted
      use_lt := h.use_lt
      suffix := hsuffix'
      unencoded := fun f hf w' c' hc' => ?unencoded
      unborn := fun u c' hu => ?unborn
      earlier := fun u c' w' f hf hu hc' => ?earlier
      unfilled := h.unfilled
      filled := h.filled
      source := fun u c' x r hr => ?source
      stored := fun hb f hf c' => ?stored }
  case unencoded =>
    show results' (p.use f) c' = none ↔ c' ∈ pending' w' f
    rw [hresults, hmem w' f c' hf, ← h.unencoded f hf w' c' hc']
    have hiff : (p.use f = p.use fr ∧ c' = c) ↔ (f = fr ∧ c' = c) :=
      and_congr_left fun _ => ⟨h.use_injective hf hfr, congrArg p.use⟩
    rw [if_congr hiff rfl rfl]
    split <;> simp_all
  case unborn =>
    show results' u c' = none
    rw [hresults, if_neg, h.unborn u c' hu]
    rintro ⟨rfl, -⟩
    exact absurd (h.use_lt fr hfr) (not_lt.mpr hu)
  case earlier =>
    change results' u c' ≠ none at hu
    change c' ∈ pending' w' f at hc'
    rw [hresults] at hu
    rw [hmem w' f c' hf] at hc'
    split at hu
    next hboth =>
      -- another frame the channel is pending for comes later
      obtain ⟨rfl, rfl⟩ := hboth
      have hw : w' = w := owner_unique ((h.suffix w' f hf).subset hc'.1) hc
      subst hw
      refine lt_of_le_of_ne (hfirst f hf hc'.1) fun huse => hc'.2 ⟨?_, rfl⟩
      exact h.use_injective hf hfr huse.symm
    next => exact h.earlier u c' w' f hf hu hc'.1
  case source =>
    change results' u c' = some (x, r) at hr
    rw [hresults] at hr
    split at hr
    next hboth =>
      obtain ⟨rfl, rfl⟩ := hboth
      -- a frame being encoded has been filled with its use's PCM
      obtain ⟨rfl, -⟩ := Prod.mk.inj (Option.some.inj hr)
      exact congrFun (h.filled fr hfr hfilled) c'
    next => exact h.source u c' x r hr
  case stored =>
    show (if bundled then Function.update p.encoded fr (store (p.encoded fr) c result)
      else p.encoded) f c' = outcome (results' (p.use f) c')
    rw [hresults, if_pos hb]
    by_cases hffr : f = fr
    · subst hffr
      rw [Function.update_self]
      have hold := h.stored hb f hf
      by_cases hc' : c' = c
      · subst hc'
        rw [if_pos ⟨rfl, rfl⟩]
        cases result with
        | none =>
          -- a failed encode leaves the empty payload the frame came with
          exact (hold c').trans (by rw [hnone]; rfl)
        | some payload => exact Function.update_self c' payload (p.encoded f)
      · rw [if_neg fun hboth => hc' hboth.2, ← hold c']
        cases result with
        | none => rfl
        | some payload => exact Function.update_of_ne hc' payload (p.encoded f)
    · rw [Function.update_of_ne hffr, if_neg]
      · exact h.stored hb f hf c'
      · exact fun hboth => hffr (h.use_injective hf hfr hboth.1)

/-- **Every transition keeps the records right.** -/
theorem Ok.step (h : Ok bundled p) (hstep : Step bundled p p') : Ok bundled p' := by
  cases hstep with
  | start fr pcm oldPcm old hfr hunfilled => exact h.start hfr hunfilled
  | fill fr pcm hunfilled => exact h.fill hunfilled
  | leave line pending hsub hpending hunfilled => exact h.leave hsub hpending hunfilled
  | encode w fr c cs result hfr hfilled hpending hfirst =>
    exact h.encode hfr hfilled hpending hfirst

end Progress

end Pipeline

end AmbiRTC
