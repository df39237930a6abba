/-
AmbiRTC/UplinkTimeline.lean

A stream that reaches the MCU whole and in order, across the 32-bit timestamp
(mcu/internal/session/pipeline.go `decodeLoop`, mcu/internal/audio/jitter.go
`WriteChannel`).  Frame `i` carries `t₀ + i·frameSize` mod `2^32`; its packets
come together, of any channels, and the room reads once they are written.

Up to the wrap every packet of the channel is decoded and none is late; the
first one behind it is below the gate, which compares the two as integers.

Main result: `survives_iff`.
-/
import AmbiRTC.Decode

namespace AmbiRTC

open Runs JitterBuffer

namespace Decode

variable {D : Type} {decode : D → List UInt8 → D × Option (List Int16)}

/-! ### The stream -/

/-- One frame: its packets by channel and payload, then the frames the room reads. -/
structure Round where
  packets : List (UInt8 × List UInt8)
  reads : List (List (List Int16))

/-- The timestamp of frame `i` on the wire. -/
def frameTsAt (t₀ : UInt32) (frameSize i : ℕ) : UInt32 := UInt32.ofNat (t₀.toNat + i * frameSize)

/-- The packets of a frame. -/
def arrivals (frameTs : UInt32) (packets : List (UInt8 × List UInt8)) : List Action :=
  packets.map fun p => .packet ⟨p.1, frameTs, p.2⟩

/-- A frame as actions. -/
def Round.actions (frameTs : UInt32) (r : Round) : List Action :=
  arrivals frameTs r.packets ++ r.reads.map .read

/-- The frames from number `i` on. -/
def stream (t₀ : UInt32) (frameSize : ℕ) : ℕ → List Round → List Action
  | _, [] => []
  | i, r :: rounds =>
    r.actions (frameTsAt t₀ frameSize i) ++ stream t₀ frameSize (i + 1) rounds

/-- No frame is without channel `c`, and none has it twice. -/
def Whole (c : UInt8) (rounds : List Round) : Prop :=
  ∀ r ∈ rounds, r.packets.countP (fun p => p.1 = c) = 1

/-- Each packet of channel `c` goes to the decoder, and none is dropped late. -/
def Survives (decode : D → List UInt8 → D × Option (List Int16)) (c : UInt8) (s : DecodeState D)
    (as : List Action) : Prop :=
  Along (step decode)
    (fun s a => ∀ p, a = .packet p → p.chIdx = c → Gated s p ∧ ¬ DroppedLate decode s p) s as

/-! ### The buffer keeps up with the stream -/

/-- No pointer is beyond `T`, and the frontier at most a frame. -/
structure Within (j : JitterBuffer) (T : ℤ) (ahead : ℕ) : Prop where
  sound : j.Sound
  readTs_le : j.readTs ≤ T
  writeTs_le : j.writeTs ≤ T + ahead

variable {j j' : JitterBuffer} {frameSize : ℕ} {T : ℤ}

/-- Before the frame at `T` nothing at `T` or later has been written, so no
sample of the frame is late. -/
theorem anchor_readTs_le (h : j.readTs ≤ T) : (j.anchor T).readTs ≤ T := by
  unfold JitterBuffer.anchor
  split
  · exact le_rfl
  · exact h

theorem anchor_writeTs_le {ahead : ℕ} (h : j.writeTs ≤ T + ahead) :
    (j.anchor T).writeTs ≤ T + ahead := by
  unfold JitterBuffer.anchor
  split
  · exact le_add_of_nonneg_right (Nat.cast_nonneg ahead)
  · exact h

/-- Writing a frame at `T` leaves the read pointer at `T` or before: a snap goes
back further than a frame. -/
theorem Within.write (h : Within j T frameSize) (hfs : j.frameSize = frameSize)
    {frameTs : UInt32} {chIdx : ℤ} {pcm : List Int16} (hts : (frameTs.toNat : ℤ) = T)
    (hpcm : pcm.length ≤ frameSize) (hw : j.writeChannel frameTs chIdx pcm = some j') :
    Within j' T frameSize ∧ j'.frameSize = frameSize := by
  obtain ⟨hsound, hsizes⟩ := h.sound.call (a := .write frameTs chIdx pcm) hw
  refine ⟨?_, hsizes.frameSize.trans hfs⟩
  rcases writeChannel_cases h.sound frameTs chIdx pcm with ⟨-, hsame⟩ | ⟨-, k, hk, hp⟩
  · obtain rfl := Option.some.inj (hw.symm.trans hsame)
    exact h
  · obtain rfl := Option.some.inj (hw.symm.trans hk)
    rw [hts] at hp
    have hpre := h.sound.prebuffer_nonneg
    have hpos := h.sound.frameSize_pos
    have hanchor := sameSizes_anchor j T
    have hwrite : j'.writeTs ≤ T + frameSize := by
      rw [hp.writeTs_eq]
      exact max_le (anchor_writeTs_le h.writeTs_le) (by omega)
    refine ⟨hsound, ?_, hwrite⟩
    rw [hp.readTs_eq]
    split
    · have hbound := (boundary_spec (j.anchor T).initTs (hanchor.frameSize ▸ hpos)
        (j'.writeTs - ((j.anchor T).prebuffer + 2 * (j.anchor T).frameSize))).2.1
      rw [hanchor.prebuffer, hanchor.frameSize] at hbound
      rw [hanchor.prebuffer, hanchor.frameSize]
      omega
    · exact anchor_readTs_le h.readTs_le

/-- A read never passes the frontier. -/
theorem Within.read (h : Within j T 0) (hfs : j.frameSize = frameSize) {out : List (List Int16)}
    (hr : j.call (.read out) = some j') : Within j' T 0 ∧ j'.frameSize = frameSize := by
  obtain ⟨hsound, hsizes⟩ := h.sound.call hr
  refine ⟨?_, hsizes.frameSize.trans hfs⟩
  simp only [JitterBuffer.call] at hr
  rcases readFrame_cases h.sound out with hread | hread | ⟨k, out', hread, ht⟩
  · rw [hread] at hr
    obtain rfl := Option.some.inj hr
    exact h
  · rw [hread] at hr
    obtain rfl := Option.some.inj hr
    exact ⟨hsound, h.readTs_le, h.writeTs_le⟩
  · rw [hread] at hr
    obtain rfl := Option.some.inj hr
    have hdepth := ht.depth
    have hle := h.writeTs_le
    constructor
    · exact hsound
    · rw [ht.readTs_eq]
      omega
    · rw [ht.writeTs_eq]
      exact hle

/-! ### One frame -/

section Frame

variable {c : UInt8} {s s' : DecodeState D}

/-- What holds of a session before, inside and after a frame. -/
structure OnTime (c : UInt8) (frameSize : ℕ) (s : DecodeState D) (T : ℤ) (ahead : ℕ) : Prop where
  within : Within s.jb T ahead
  frameSize_eq : s.jb.frameSize = frameSize
  last_le : s.decInTs c.toNat ≤ T

/-- The samples of a packet at `T` are not late. -/
theorem OnTime.not_late {ahead : ℕ} (h : OnTime c frameSize s T ahead) {p : InboundPkt}
    (hts : (p.frameTs.toNat : ℤ) = T) : ¬ DroppedLate decode s p := by
  rintro ⟨pcm, -, hne, hle⟩
  have hlen := List.length_pos_iff.mpr hne
  have hread := anchor_readTs_le h.within.readTs_le
  rw [hts] at hle
  omega

/-- One packet of the frame. -/
theorem OnTime.packet (h : OnTime c frameSize s T frameSize)
    (hdecode : ∀ d payload pcm, (decode d payload).2 = some pcm → pcm.length ≤ frameSize)
    {p : InboundPkt} (hts : (p.frameTs.toNat : ℤ) = T) (hs : step decode s (.packet p) = some s') :
    OnTime c frameSize s' T frameSize ∧
      s'.decInTs c.toNat = if Gated s p ∧ p.chIdx = c then T else s.decInTs c.toNat := by
  obtain ⟨s₁, hs₁, hsound, hlast, hjb⟩ := @decodePacket_spec _ decode _ h.within.sound p
  obtain rfl := Option.some.inj (hs.symm.trans hs₁)
  have hlast' : s'.decInTs c.toNat
      = if Gated s p ∧ p.chIdx = c then T else s.decInTs c.toNat := by
    have hidx : c.toNat = p.chIdx.toNat ↔ p.chIdx = c := UInt8.toNat_inj.trans eq_comm
    simp only [hlast, hts, hidx]
  have hle : s'.decInTs c.toNat ≤ T := by
    rw [hlast']
    split
    · exact le_rfl
    · exact h.last_le
  refine ⟨?_, hlast'⟩
  rcases hjb with hsame | ⟨pcm, hpcm, hwrite⟩
  · exact ⟨hsame ▸ h.within, hsame ▸ h.frameSize_eq, hle⟩
  · obtain ⟨hwithin, hfs⟩ := h.within.write h.frameSize_eq hts (hdecode _ _ _ hpcm) hwrite
    exact ⟨hwithin, hfs, hle⟩

/-- Packets of other channels leave the gate of `c` where it is. -/
theorem last_of_arrivals {frameTs : UInt32}
    {packets : List (UInt8 × List UInt8)} (h : s.jb.Sound) (hother : ∀ p ∈ packets, p.1 ≠ c)
    (hrun : Run (step decode) s (arrivals frameTs packets) s') :
    s'.decInTs c.toNat = s.decInTs c.toNat := by
  induction packets generalizing s with
  | nil =>
    obtain rfl := run_nil_iff.mp hrun
    rfl
  | cons p packets ih =>
    obtain ⟨s₁, hs₁, hrest⟩ := run_cons_iff.mp hrun
    obtain ⟨s₂, hs₂, hsound, hlast, -⟩ :=
      @decodePacket_spec _ decode _ h ⟨p.1, frameTs, p.2⟩
    obtain rfl := Option.some.inj (hs₁.symm.trans hs₂)
    have hne : ¬ c.toNat = p.1.toNat :=
      fun heq => hother p (by simp) (UInt8.toNat_inj.mp heq).symm
    rw [ih hsound (fun q hq => hother q (by simp [hq])) hrest, hlast,
      if_neg fun hboth => hne hboth.2]

/-- The packets of a frame, with at most one of channel `c`. -/
theorem OnTime.arrivals (hc : c.toNat < channels)
    (hdecode : ∀ d payload pcm, (decode d payload).2 = some pcm → pcm.length ≤ frameSize)
    {frameTs : UInt32} (hts : (frameTs.toNat : ℤ) = T) {packets : List (UInt8 × List UInt8)}
    (h : OnTime c frameSize s T frameSize)
    (hcount : packets.countP (fun p => p.1 = c) = 0 ∨
      (packets.countP (fun p => p.1 = c) = 1 ∧ s.decInTs c.toNat < T)) :
    Survives decode c s (arrivals frameTs packets) ∧
      ∀ s', Run (step decode) s (Decode.arrivals frameTs packets) s' →
        OnTime c frameSize s' T frameSize ∧
          (0 < packets.countP (fun p => p.1 = c) → s'.decInTs c.toNat = T) := by
  induction packets generalizing s with
  | nil =>
    refine ⟨along_nil _ _, fun s' hrun => ?_⟩
    obtain rfl := run_nil_iff.mp hrun
    exact ⟨h, fun hpos => absurd hpos (Nat.lt_irrefl 0)⟩
  | cons p packets ih =>
    -- what one packet does: whichever channel it is of, the rest has one of `c` at most
    have hstep : ∀ s₁, step decode s (.packet ⟨p.1, frameTs, p.2⟩) = some s₁ →
        OnTime c frameSize s₁ T frameSize ∧
        (packets.countP (fun p => p.1 = c) = 0 ∨
          (packets.countP (fun p => p.1 = c) = 1 ∧ s₁.decInTs c.toNat < T)) := by
      intro s₁ hs₁
      obtain ⟨hon, hlast⟩ := h.packet hdecode hts hs₁
      refine ⟨hon, ?_⟩
      rw [List.countP_cons] at hcount
      by_cases hpc : p.1 = c
      · -- this is the one packet of the channel
        left
        simp only [hpc, decide_true, if_true] at hcount
        omega
      · rw [hlast, if_neg fun hboth => hpc hboth.2]
        simpa [hpc] using hcount
    constructor
    -- nothing is lost: the gate is behind, and the slot not too late
    · refine along_cons ?_ fun s₁ hs₁ => (ih (hstep s₁ hs₁).1 (hstep s₁ hs₁).2).1
      rintro q hq hqc
      obtain rfl := Action.packet.inj hq
      have hlt : s.decInTs c.toNat < T := by
        rw [List.countP_cons_of_pos (by simpa using hqc)] at hcount
        omega
      refine ⟨⟨hqc ▸ hc, ?_⟩, h.not_late hts⟩
      rw [hqc, hts]
      exact hlt
    · intro s' hrun
      obtain ⟨s₁, hs₁, hrest⟩ := run_cons_iff.mp hrun
      obtain ⟨hon, hcount'⟩ := hstep s₁ hs₁
      obtain ⟨hon', hlast'⟩ := (ih hon hcount').2 s' hrest
      refine ⟨hon', fun hpos => ?_⟩
      by_cases hpc : p.1 = c
      · -- the gate moves to `T` here, and no other packet of the channel follows
        have hzero : packets.countP (fun p => p.1 = c) = 0 ∧ s.decInTs c.toNat < T := by
          rw [List.countP_cons_of_pos (by simpa using hpc)] at hcount
          omega
        have hgate : Gated s ⟨p.1, frameTs, p.2⟩ := by
          refine ⟨hpc ▸ hc, ?_⟩
          simp only [hpc, hts]
          exact hzero.2
        have hother : ∀ q ∈ packets, q.1 ≠ c := by
          intro q hq hqc
          exact List.countP_eq_zero.mp hzero.1 q hq (decide_eq_true hqc)
        have hhere := (h.packet hdecode hts hs₁).2
        rw [if_pos ⟨hgate, hpc⟩] at hhere
        rw [last_of_arrivals hon.within.sound hother hrest, hhere]
      · rw [List.countP_cons_of_neg (by simpa using hpc)] at hpos
        exact hlast' hpos

/-- The reads after a frame. -/
theorem OnTime.reads {reads : List (List (List Int16))} (h : OnTime c frameSize s T 0)
    (hrun : Run (step decode) s (reads.map .read) s') :
    OnTime c frameSize s' T 0 ∧ s'.decInTs = s.decInTs := by
  induction reads generalizing s with
  | nil =>
    obtain rfl := run_nil_iff.mp hrun
    exact ⟨h, rfl⟩
  | cons out reads ih =>
    obtain ⟨s₁, hs₁, hrest⟩ := run_cons_iff.mp hrun
    obtain ⟨jb, hread, hcall⟩ := @step_read _ decode _ out h.within.sound
    obtain rfl := Option.some.inj (hs₁.symm.trans hread)
    obtain ⟨hwithin, hfs⟩ := h.within.read h.frameSize_eq hcall
    have hon : OnTime c frameSize { s with jb := jb } T 0 := ⟨hwithin, hfs, h.last_le⟩
    obtain ⟨hon', hlast⟩ := ih hon hrest
    exact ⟨hon', hlast⟩

theorem survives_reads (reads : List (List (List Int16))) :
    Survives decode c s (reads.map .read) := by
  intro as₁ a as₂ s₁ has _ p ha
  have hmem : a ∈ reads.map Action.read := by
    rw [has]
    simp
  obtain ⟨out, -, hout⟩ := List.mem_map.mp hmem
  rw [ha] at hout
  cases hout

/-- A whole frame before the wrap. -/
theorem OnTime.round (hc : c.toNat < channels)
    (hdecode : ∀ d payload pcm, (decode d payload).2 = some pcm → pcm.length ≤ frameSize)
    {frameTs : UInt32} (hts : (frameTs.toNat : ℤ) = T) {r : Round}
    (h : OnTime c frameSize s T 0) (hlast : s.decInTs c.toNat < T)
    (hone : r.packets.countP (fun p => p.1 = c) = 1) :
    Survives decode c s (r.actions frameTs) ∧
      ∀ s', Run (step decode) s (r.actions frameTs) s' →
        OnTime c frameSize s' (T + frameSize) 0 ∧ s'.decInTs c.toNat = T := by
  have hframe : OnTime c frameSize s T frameSize :=
    ⟨⟨h.within.sound, h.within.readTs_le, by have := h.within.writeTs_le; omega⟩,
      h.frameSize_eq, h.last_le⟩
  obtain ⟨hsurvives, hwritten⟩ := hframe.arrivals hc hdecode hts (Or.inr ⟨hone, hlast⟩)
  refine ⟨along_append hsurvives fun s₁ _ => survives_reads r.reads, fun s' hrun => ?_⟩
  obtain ⟨s₁, harrive, hread⟩ := run_append_iff.mp hrun
  obtain ⟨hon, hgate⟩ := hwritten s₁ harrive
  have hdone : OnTime c frameSize s₁ (T + frameSize) 0 :=
    ⟨⟨hon.within.sound, by have := hon.within.readTs_le; omega,
      by have := hon.within.writeTs_le; omega⟩, hon.frameSize_eq,
      by have := hon.last_le; omega⟩
  obtain ⟨hon', hlast'⟩ := hdone.reads hread
  refine ⟨hon', ?_⟩
  rw [hlast']
  exact hgate (by omega)

end Frame

/-! ### The whole stream -/

/-- Before the wrap the wire carries the timestamp itself. -/
theorem toNat_frameTsAt {t₀ : UInt32} {i : ℕ} (h : t₀.toNat + i * frameSize < 2 ^ 32) :
    (frameTsAt t₀ frameSize i).toNat = t₀.toNat + i * frameSize := by
  rw [frameTsAt, UInt32.toNat_ofNat']
  exact Nat.mod_eq_of_lt h

/-- The first frame behind the wrap: its timestamp is below the gate. -/
theorem not_survives_wrapped {c : UInt8} {s : DecodeState D} {frameTs : UInt32} {r : Round}
    (h : s.jb.Sound) (hle : (frameTs.toNat : ℤ) ≤ s.decInTs c.toNat)
    (hone : r.packets.countP (fun p => p.1 = c) = 1) {rest : List Action} :
    ¬ Survives decode c s (r.actions frameTs ++ rest) := by
  intro hsurvives
  have hpos : 0 < r.packets.countP fun p => p.1 = c := by omega
  obtain ⟨q, hq, hqc⟩ := List.countP_pos_iff.mp hpos
  have hqc' : q.1 = c := of_decide_eq_true hqc
  obtain ⟨pre, post, hsplit⟩ := List.append_of_mem hq
  have hpre : ∀ p ∈ pre, p.1 ≠ c := by
    rw [hsplit, List.countP_append, List.countP_cons_of_pos (by simpa using hqc')] at hone
    have hzero : pre.countP (fun p => p.1 = c) = 0 := by omega
    intro p hp hpc
    exact List.countP_eq_zero.mp hzero p hp (decide_eq_true hpc)
  -- up to the one packet of the channel the gate stands still
  obtain ⟨s₁, hs₁⟩ := exists_run h (arrivals frameTs pre)
  have hgate := last_of_arrivals h hpre hs₁
  have hgated := (hsurvives (arrivals frameTs pre) (.packet ⟨q.1, frameTs, q.2⟩)
    (arrivals frameTs post ++ r.reads.map .read ++ rest) s₁
    (by simp [Round.actions, arrivals, hsplit]) hs₁ _ rfl hqc').1
  have hlt := hgated.2
  rw [hqc', hgate] at hlt
  exact absurd hle (not_le.mpr hlt)

/-- From frame `i` on a stream survives if and only if it ends before the wrap. -/
theorem survives_stream_iff {c : UInt8} (hc : c.toNat < channels)
    (hdecode : ∀ d payload pcm, (decode d payload).2 = some pcm → pcm.length ≤ frameSize)
    (hfs : 0 < frameSize ∧ frameSize < 2 ^ 32) {t₀ : UInt32} {rounds : List Round} {i : ℕ}
    {s : DecodeState D} (hwhole : Whole c rounds)
    (h : OnTime c frameSize s ((t₀.toNat + i * frameSize : ℕ) : ℤ) 0)
    (hlast : s.decInTs c.toNat < ((t₀.toNat + i * frameSize : ℕ) : ℤ))
    (hprev : t₀.toNat + i * frameSize < 2 ^ 32 ∨
      (s.decInTs c.toNat + frameSize = ((t₀.toNat + i * frameSize : ℕ) : ℤ) ∧
        s.decInTs c.toNat < 2 ^ 32)) :
    Survives decode c s (stream t₀ frameSize i rounds) ↔
      ∀ k < rounds.length, t₀.toNat + (i + k) * frameSize < 2 ^ 32 := by
  induction rounds generalizing i s with
  | nil => exact iff_of_true (along_nil _ _) fun k hk => absurd hk (Nat.not_lt_zero k)
  | cons r rounds ih =>
    have hone := hwhole r (by simp)
    by_cases hwrap : t₀.toNat + i * frameSize < 2 ^ 32
    -- no wrap here: one round is played, and the frames after it decide
    · have hts : ((frameTsAt t₀ frameSize i).toNat : ℤ) = ((t₀.toNat + i * frameSize : ℕ) : ℤ) := by
        rw [toNat_frameTsAt hwrap]
      have hnext : t₀.toNat + (i + 1) * frameSize = t₀.toNat + i * frameSize + frameSize := by
        rw [Nat.succ_mul, ← Nat.add_assoc]
      obtain ⟨hround, hafter⟩ := h.round hc hdecode hts hlast hone
      have htail : ∀ s', Run (step decode) s (r.actions (frameTsAt t₀ frameSize i)) s' →
          (Survives decode c s' (stream t₀ frameSize (i + 1) rounds) ↔
            ∀ k < rounds.length, t₀.toNat + (i + 1 + k) * frameSize < 2 ^ 32) := by
        intro s' hrun
        obtain ⟨hon, hgate⟩ := hafter s' hrun
        refine ih (fun r' hr' => hwhole r' (by simp [hr'])) ?_ ?_ ?_
        · rw [hnext, Nat.cast_add]
          exact hon
        · rw [hgate, hnext]
          omega
        · rw [hgate, hnext]
          omega
      constructor
      · intro hsurvives k hk
        cases k with
        | zero => exact hwrap
        | succ k =>
          obtain ⟨s', hrun⟩ := exists_run h.within.sound (r.actions (frameTsAt t₀ frameSize i))
          have := (htail s' hrun).mp (hsurvives.drop hrun) k (by simpa using hk)
          rwa [Nat.add_right_comm] at this
      · intro hall
        refine along_append hround fun s' hrun => (htail s' hrun).mpr fun k hk => ?_
        have := hall (k + 1) (by simpa using hk)
        rwa [Nat.add_right_comm]
    · -- the frame before was the last one under the wrap
      obtain ⟨hstep, hlt⟩ := hprev.resolve_left hwrap
      have hts : ((frameTsAt t₀ frameSize i).toNat : ℤ) ≤ s.decInTs c.toNat := by
        rw [frameTsAt, UInt32.toNat_ofNat']
        omega
      refine iff_of_false (not_survives_wrapped h.within.sound hts hone) fun hall => hwrap ?_
      simpa using hall 0 (by simp)

/-- A session's stream, from its first packet on. -/
theorem survives_new_iff (hfs : frameSize ∈ validFrameSizes) {jb : JitterBuffer}
    (hjb : sessionJitterBuffer frameSize = .ok jb) (decoder : D)
    (hdecode : ∀ d payload pcm, (decode d payload).2 = some pcm → pcm.length ≤ frameSize)
    {c : UInt8} (hc : c.toNat < channels) (t₀ : UInt32) {rounds : List Round}
    (hwhole : Whole c rounds) :
    Survives decode c (newDecodeState decoder jb) (stream t₀ frameSize 0 rounds) ↔
      ∀ i < rounds.length, t₀.toNat + i * frameSize < 2 ^ 32 := by
  obtain ⟨jb', hjb', hsound, hsize, hread, hwrite⟩ := sessionJitterBuffer_sound hfs
  obtain rfl := Except.ok.inj (hjb.symm.trans hjb')
  have hbounds : 0 < frameSize ∧ frameSize < 2 ^ 32 := by
    have hall : ∀ n ∈ validFrameSizes, 0 < n ∧ n < 2 ^ 32 := by decide
    exact hall frameSize hfs
  have hlast : (newDecodeState decoder jb).decInTs c.toNat = -1 := rfl
  have hstart : OnTime c frameSize (newDecodeState decoder jb)
      ((t₀.toNat + 0 * frameSize : ℕ) : ℤ) 0 := by
    refine ⟨⟨hsound, ?_, ?_⟩, hsize, ?_⟩
    · show jb.readTs ≤ _
      omega
    · show jb.writeTs ≤ _
      omega
    · rw [hlast]
      omega
  have ht₀ := t₀.toNat_lt
  have hiff := survives_stream_iff hc hdecode hbounds hwhole hstart (by rw [hlast]; omega)
    (Or.inl (by omega))
  simpa using hiff

/-- **The 32-bit wrap**: a stream of a channel that is whole and in order runs
through, and all of it is decoded and placed if and only if none of its
timestamps has passed `2^32`. -/
theorem survives_iff (hfs : frameSize ∈ validFrameSizes) {jb : JitterBuffer}
    (hjb : sessionJitterBuffer frameSize = .ok jb) (decoder : D)
    (hdecode : ∀ d payload pcm, (decode d payload).2 = some pcm → pcm.length ≤ frameSize)
    {c : UInt8} (hc : c.toNat < channels) (t₀ : UInt32) {rounds : List Round}
    (hwhole : Whole c rounds) :
    (∃ s', Run (step decode) (newDecodeState decoder jb) (stream t₀ frameSize 0 rounds) s') ∧
      (Survives decode c (newDecodeState decoder jb) (stream t₀ frameSize 0 rounds) ↔
        ∀ i < rounds.length, t₀.toNat + i * frameSize < 2 ^ 32) := by
  obtain ⟨jb', hjb', hsound, -⟩ := sessionJitterBuffer_sound hfs
  obtain rfl := Except.ok.inj (hjb.symm.trans hjb')
  exact ⟨exists_run hsound _, survives_new_iff hfs hjb decoder hdecode hc t₀ hwhole⟩

/-- A decoder that makes 20 ms of silence of everything. -/
def silentDecode (d : Unit) (_ : List UInt8) : Unit × Option (List Int16) :=
  (d, some (List.replicate 960 0))

theorem length_silentDecode (d : Unit) (payload : List UInt8) (pcm : List Int16)
    (h : (silentDecode d payload).2 = some pcm) : pcm.length ≤ 960 := by
  obtain rfl := Option.some.inj h
  exact (List.length_replicate ..).le

/-- Two frames of channel 0, each read once it is written. -/
def twoRounds : List Round := [⟨[(0, [1])], [[]]⟩, ⟨[(0, [1])], [[]]⟩]

theorem whole_twoRounds : Whole 0 twoRounds := by
  unfold Whole
  decide

theorem survives_iff_two : ∃ jb, sessionJitterBuffer 960 = .ok jb ∧
    (∃ s', Run (step silentDecode) (newDecodeState () jb) (stream 0 960 0 twoRounds) s') ∧
      (Survives silentDecode 0 (newDecodeState () jb) (stream 0 960 0 twoRounds) ↔
        ∀ i < twoRounds.length, (0 : UInt32).toNat + i * 960 < 2 ^ 32) := by
  obtain ⟨jb, hjb, -⟩ := @sessionJitterBuffer_sound 960 (by decide)
  exact ⟨jb, hjb,
    survives_iff (by decide) hjb () length_silentDecode (by decide) 0 whole_twoRounds⟩

/-- The second of two frames, at timestamp 0 behind `2^32 - 960`, is lost. -/
theorem not_survives_wrap : ∃ jb, sessionJitterBuffer 960 = .ok jb ∧ Whole 0 twoRounds ∧
    ¬ Survives silentDecode 0 (newDecodeState () jb) (stream 4294966336 960 0 twoRounds) := by
  obtain ⟨jb, hjb, -⟩ := @sessionJitterBuffer_sound 960 (by decide)
  refine ⟨jb, hjb, whole_twoRounds, fun hsurvives => ?_⟩
  have hall := (survives_new_iff (by decide) hjb () length_silentDecode (by decide) 4294966336
    whole_twoRounds).mp hsurvives
  exact absurd (hall 1 (by decide)) (by decide)

end Decode

end AmbiRTC
