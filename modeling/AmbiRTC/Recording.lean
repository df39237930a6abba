/-
AmbiRTC/Recording.lean

The export of a recording (client/engine.js `_exportWav`): the recorded frames,
in whatever order they came, are put on the timeline with silence where frames
are missing, interleaved, and written behind the header of a WAV file.

Samples are 32-bit floats and kept as their bits.  The name of the file and its
download are left out.
-/
import AmbiRTC.Assembly
import AmbiRTC.Reblock
import AmbiRTC.Words
import Mathlib.Algebra.Order.Ring.Int
import Mathlib.Data.List.Sort
import Mathlib.Tactic.Positivity

namespace AmbiRTC.Recording

open Assembly Reblock Words

/-! ### The timeline -/

/-- The sixteen planes of a frame. -/
abbrev Planes := Channel → List UInt32

/-- `Array.from({ length: CHANNELS }, () => new Float32Array(frameSize))` -/
def silence (frameSize : ℕ) : Planes := fun _ => List.replicate frameSize 0

/-- `frames.sort((a, b) => a.ts - b.ts)` -/
def sortByTs (frames : List (RecordedFrame UInt32)) : List (RecordedFrame UInt32) :=
  frames.insertionSort fun a b => a.ts ≤ b.ts

/-- `while (expectedTs < frame.ts)`, at most `room` turns. -/
def fillGap (frameSize : ℕ) (ts : ℤ) : ℕ → ℤ → Option (List Planes)
  | 0, expectedTs => if expectedTs < ts then none else some []
  | room + 1, expectedTs =>
    if expectedTs < ts then
      (fillGap frameSize ts room (expectedTs + frameSize)).map fun gap => silence frameSize :: gap
    else some []

/-- The loop over the frames: `complete`, from `expectedTs` on. -/
def fillFrames (frameSize : ℕ) : ℤ → List (RecordedFrame UInt32) → Option (List Planes)
  | _, [] => some []
  | expectedTs, frame :: frames => do
    let gap ← fillGap frameSize frame.ts (frame.ts - expectedTs).toNat expectedTs
    let rest ← fillFrames frameSize (frame.ts + frameSize) frames
    return gap ++ frame.channels :: rest

/-! ### The file -/

/-- `w4`. -/
def w4 (s : String) : List UInt8 := (s.toList.take 4).map fun ch => UInt8.ofNat ch.toNat

/-- `u16`. -/
def u16 (v : ℕ) : List UInt8 := putLeUInt16 (UInt16.ofNat v)

/-- `u32`. -/
def u32 (v : ℕ) : List UInt8 := putLeUInt32 (UInt32.ofNat v)

/-- `CHANNELS` -/
abbrev CHANNELS : ℕ := 16

/-- `SAMPLE_RATE` -/
def SAMPLE_RATE : ℕ := 48000

/-- The header, up to the first sample. -/
def header (dataBytes : ℕ) : List UInt8 :=
  w4 "RIFF" ++ u32 (60 + dataBytes) ++ w4 "WAVE"
    ++ w4 "fmt " ++ u32 40
    ++ u16 0xFFFE ++ u16 CHANNELS ++ u32 SAMPLE_RATE ++ u32 (SAMPLE_RATE * CHANNELS * 4)
    ++ u16 (CHANNELS * 4) ++ u16 32 ++ u16 22 ++ u16 32 ++ u32 0
    ++ [3, 0, 0, 0, 0, 0, 16, 0, 128, 0, 0, 170, 0, 56, 155, 113]
    ++ w4 "data" ++ u32 dataBytes

/-- The bits of `NaN`, which an absent sample is stored as. -/
def nan : UInt32 := 0x7fc00000

/-- What the three loops store, in their order. -/
def interleave (frameSize : ℕ) (complete : List Planes) : List UInt32 :=
  complete.flatMap fun chs => (List.range frameSize).flatMap fun s =>
    (List.finRange CHANNELS).map fun c => (chs c).getD s nan

/-- `pcm[idx++] = …`, one after the other; a typed array ignores what is beyond it. -/
def storePcm : List UInt32 → ℕ → List UInt32 → List UInt32
  | [], _, pcm => pcm
  | v :: vs, idx, pcm => storePcm vs (idx + 1) (pcm.set idx v)

theorem channels_pos : 0 < CHANNELS := by decide

/-- `_exportWav`: the bytes of the file, if there is one. -/
def exportWav (frames : List (RecordedFrame UInt32)) : Option (Option (List UInt8)) :=
  match sortByTs frames with
  | [] => some none
  | first :: rest => do
    let frameSize := (first.channels ⟨0, channels_pos⟩).length
    let complete ← fillFrames frameSize first.ts (first :: rest)
    let numFrames := complete.length
    let dataBytes := numFrames * frameSize * CHANNELS * 4
    let buf := List.replicate (68 + dataBytes) 0
    let buf ← overwrite buf (header dataBytes) 0
    -- `new Float32Array(buf, 68)`: a view of the rest of the bytes
    let pcm := storePcm (interleave frameSize complete) 0 (List.replicate (dataBytes / 4) 0)
    let buf ← overwrite buf (pcm.flatMap putLeUInt32) 68
    return some buf

/-! ### Reading a file -/

/-- The little-endian word at an offset. -/
def wordAt (file : List UInt8) (off : ℕ) : UInt32 :=
  leUInt32 (file.getD off 0) (file.getD (off + 1) 0) (file.getD (off + 2) 0)
    (file.getD (off + 3) 0)

/-- Sample `i` of the data chunk. -/
def dataSample (file : List UInt8) (i : ℕ) : UInt32 := wordAt file (68 + i * 4)

/-- The frame covers the absolute time `t`. -/
def Covers (frameSize : ℕ) (f : RecordedFrame UInt32) (t : ℤ) : Prop :=
  f.ts ≤ t ∧ t < f.ts + frameSize

/-- The file is the recording from `firstTs` to the end of the frame at `lastTs`,
every sample in its place. -/
structure TimeAligned (frameSize : ℕ) (frames : List (RecordedFrame UInt32)) (firstTs lastTs : ℤ)
    (file : List UInt8) : Prop where
  length : (file.length : ℤ) = 68 + ((lastTs - firstTs) / frameSize + 1) * frameSize * 16 * 4
  /-- the RIFF size counts the bytes behind its field -/
  riffSize : (wordAt file 4).toNat = file.length - 8
  /-- the data size counts the bytes behind its field -/
  dataSize : (wordAt file 64).toNat = file.length - 68
  covered : ∀ (t : ℤ) (c : Channel), ∀ f ∈ frames, Covers frameSize f t →
    (f.channels c)[(t - f.ts).toNat]?
      = some (dataSample file ((t - firstTs).toNat * 16 + c.val))
  silent : ∀ (t : ℤ) (c : Channel), firstTs ≤ t → t < lastTs + frameSize →
    (∀ f ∈ frames, ¬ Covers frameSize f t) →
      dataSample file ((t - firstTs).toNat * 16 + c.val) = 0

/-! ### The timeline filled in -/

/-- The planes of the frame at `ts`, or silence. -/
def planesAt (frameSize : ℕ) (frames : List (RecordedFrame UInt32)) (ts : ℤ) : Planes :=
  match frames.find? fun f => f.ts = ts with
  | some f => f.channels
  | none => silence frameSize

theorem planesAt_of_mem {frameSize : ℕ} {frames : List (RecordedFrame UInt32)}
    {f : RecordedFrame UInt32} (hnodup : (frames.map RecordedFrame.ts).Nodup) (hf : f ∈ frames) :
    planesAt frameSize frames f.ts = f.channels := by
  have hfind : frames.find? (fun g => g.ts = f.ts) = some f := by
    obtain ⟨g, hg⟩ := Option.isSome_iff_exists.mp
      (List.find?_isSome.mpr ⟨f, hf, by simp⟩ : (frames.find? fun g => g.ts = f.ts).isSome)
    have hts : g.ts = f.ts := by simpa using List.find?_some hg
    rw [hg, List.inj_on_of_nodup_map hnodup (List.mem_of_find?_eq_some hg) hf hts]
  rw [planesAt, hfind]

theorem planesAt_of_not_mem {frameSize : ℕ} {frames : List (RecordedFrame UInt32)} {ts : ℤ}
    (h : ∀ f ∈ frames, f.ts ≠ ts) : planesAt frameSize frames ts = silence frameSize := by
  have hfind : frames.find? (fun f => f.ts = ts) = none :=
    List.find?_eq_none.mpr fun f hf => by simpa using h f hf
  rw [planesAt, hfind]

theorem planesAt_cons_of_ne {frameSize : ℕ} {frames : List (RecordedFrame UInt32)}
    {f : RecordedFrame UInt32} {ts : ℤ} (h : f.ts ≠ ts) :
    planesAt frameSize (f :: frames) ts = planesAt frameSize frames ts := by
  rw [planesAt, List.find?_cons_of_neg (by simpa using h)]
  rfl

/-- A gap of `g` frames is filled with `g` frames of silence. -/
theorem fillGap_eq {frameSize room g : ℕ} {ts expectedTs : ℤ} (hF : 0 < frameSize)
    (hts : ts = expectedTs + g * frameSize) (hroom : g ≤ room) :
    fillGap frameSize ts room expectedTs = some (List.replicate g (silence frameSize)) := by
  induction g generalizing room expectedTs with
  | zero =>
    have hge : ¬ expectedTs < ts := by
      rw [hts]
      simp
    cases room <;> rw [fillGap, if_neg hge] <;> rfl
  | succ g ih =>
    obtain ⟨room, rfl⟩ : ∃ r, room = r + 1 := ⟨room - 1, by omega⟩
    have hstep : ts = expectedTs + frameSize + g * frameSize := by
      rw [hts]
      push_cast
      ring
    have hlt : expectedTs < ts := by
      have : (0 : ℤ) ≤ g * frameSize := by positivity
      omega
    rw [fillGap, if_pos hlt, ih hstep (by omega)]
    rfl

/-- Where the timeline ends: `expectedTs` behind the last frame. -/
def endTs (frameSize : ℕ) (expectedTs : ℤ) (frames : List (RecordedFrame UInt32)) : ℤ :=
  frames.foldl (fun _ f => f.ts + frameSize) expectedTs

/-- **The timeline without a hole**: from `expectedTs` on, frame after frame, the
recorded planes or silence. -/
theorem fillFrames_spec {frameSize : ℕ} (hF : 0 < frameSize)
    {frames : List (RecordedFrame UInt32)} {expectedTs : ℤ}
    (hsorted : frames.Pairwise fun a b => a.ts < b.ts)
    (hgrid : ∀ f ∈ frames, ∃ j : ℕ, f.ts = expectedTs + j * frameSize) :
    ∃ complete, fillFrames frameSize expectedTs frames = some complete ∧
      expectedTs + complete.length * frameSize = endTs frameSize expectedTs frames ∧
      ∀ k < complete.length,
        complete[k]? = some (planesAt frameSize frames (expectedTs + k * frameSize)) := by
  induction frames generalizing expectedTs with
  | nil => exact ⟨[], rfl, by simp [endTs], fun k hk => absurd hk (Nat.not_lt_zero k)⟩
  | cons f frames ih =>
    obtain ⟨hbelow, hsorted'⟩ := List.pairwise_cons.mp hsorted
    obtain ⟨⟨g, hg⟩, hgrid'⟩ := List.forall_mem_cons.mp hgrid
    have hFpos : (0 : ℤ) < frameSize := by exact_mod_cast hF
    -- the later frames are on the grid behind this one
    have hgrid₁ : ∀ f' ∈ frames, ∃ j : ℕ, f'.ts = f.ts + frameSize + j * frameSize := by
      intro f' hf'
      obtain ⟨j, hj⟩ := hgrid' f' hf'
      have hlt := hbelow f' hf'
      have hgj : g < j := by
        have hmul : (g : ℤ) * frameSize < j * frameSize := by omega
        exact_mod_cast lt_of_mul_lt_mul_right hmul hFpos.le
      refine ⟨j - g - 1, ?_⟩
      obtain ⟨d, rfl⟩ : ∃ d, j = g + 1 + d := ⟨j - g - 1, by omega⟩
      rw [hj, hg, show g + 1 + d - g - 1 = d by omega]
      push_cast
      ring
    obtain ⟨rest, hrest, hend, hplanes⟩ := ih hsorted' hgrid₁
    have hgap := fillGap_eq hF hg (show g ≤ (f.ts - expectedTs).toNat by
      have hle : (g : ℤ) * 1 ≤ g * frameSize :=
        mul_le_mul_of_nonneg_left (by omega) (Int.natCast_nonneg g)
      omega)
    refine ⟨List.replicate g (silence frameSize) ++ f.channels :: rest, ?_, ?_, ?_⟩
    · simp only [fillFrames, hgap, hrest, Option.bind_eq_bind, Option.bind_some]
      rfl
    · rw [endTs, List.foldl_cons, ← endTs, ← hend, hg, List.length_append, List.length_replicate,
        List.length_cons]
      push_cast
      ring
    · intro k hk
      rw [List.length_append, List.length_replicate, List.length_cons] at hk
      rcases lt_trichotomy k g with hkg | rfl | hkg
      · -- before this frame
        have hbefore : expectedTs + k * frameSize < f.ts := by
          rw [hg]
          have : (k : ℤ) * frameSize < g * frameSize :=
            mul_lt_mul_of_pos_right (by exact_mod_cast hkg) hFpos
          omega
        rw [List.getElem?_append_left (by simpa using hkg), List.getElem?_replicate, if_pos hkg,
          planesAt_of_not_mem]
        intro f' hf'
        rcases List.mem_cons.mp hf' with rfl | hf'
        · exact ne_of_gt hbefore
        · exact ne_of_gt (hbefore.trans (hbelow f' hf'))
      · rw [List.getElem?_append_right (by simp), List.length_replicate, Nat.sub_self, ← hg]
        have hfind : planesAt frameSize (f :: frames) f.ts = f.channels := by
          rw [planesAt, List.find?_cons_of_pos (by simp)]
        rw [hfind]
        rfl
      · -- behind it
        obtain ⟨d, rfl⟩ : ∃ d, k = g + 1 + d := ⟨k - g - 1, by omega⟩
        have hat : expectedTs + (g + 1 + d : ℕ) * (frameSize : ℤ)
            = f.ts + frameSize + d * frameSize := by
          rw [hg]
          push_cast
          ring
        have hne : f.ts ≠ f.ts + frameSize + d * frameSize := by
          have : (0 : ℤ) ≤ d * frameSize := by positivity
          omega
        rw [List.getElem?_append_right (by rw [List.length_replicate]; omega),
          List.length_replicate, show g + 1 + d - g = d + 1 by omega, List.getElem?_cons_succ, hat,
          planesAt_cons_of_ne hne]
        exact hplanes d (by omega)

/-! ### The bytes of the file -/

theorem wordAt_append {pre post : List UInt8} {off : ℕ} {v : UInt32} (h : pre.length = off) :
    wordAt (pre ++ (putLeUInt32 v ++ post)) off = v := by
  have hbyte : ∀ i, (pre ++ (putLeUInt32 v ++ post)).getD (off + i) 0
      = (putLeUInt32 v ++ post).getD i 0 := by
    intro i
    rw [List.getD_append_right _ _ _ _ (by omega), h, Nat.add_sub_cancel_left]
  have hfirst := hbyte 0
  rw [Nat.add_zero] at hfirst
  rw [wordAt, hfirst, hbyte, hbyte, hbyte]
  exact leUInt32_put v

theorem wordAt_append_u32 {pre post : List UInt8} {off v : ℕ} (h : pre.length = off) :
    wordAt (pre ++ (u32 v ++ post)) off = UInt32.ofNat v := wordAt_append h

/-- The header between its two sizes. -/
def format : List UInt8 :=
  w4 "WAVE" ++ w4 "fmt " ++ u32 40
    ++ u16 0xFFFE ++ u16 CHANNELS ++ u32 SAMPLE_RATE ++ u32 (SAMPLE_RATE * CHANNELS * 4)
    ++ u16 (CHANNELS * 4) ++ u16 32 ++ u16 22 ++ u16 32 ++ u32 0
    ++ [3, 0, 0, 0, 0, 0, 16, 0, 128, 0, 0, 170, 0, 56, 155, 113] ++ w4 "data"

theorem header_eq (dataBytes : ℕ) :
    header dataBytes = w4 "RIFF" ++ (u32 (60 + dataBytes) ++ (format ++ u32 dataBytes)) := by
  unfold header format
  simp only [List.append_assoc]

theorem length_format : format.length = 56 := by decide +kernel

theorem length_header (dataBytes : ℕ) : (header dataBytes).length = 68 := by
  have hriff : (w4 "RIFF").length = 4 := by decide
  have hword : ∀ v, (u32 v).length = 4 := fun v => rfl
  rw [header_eq, List.length_append, List.length_append, List.length_append, hriff, hword, hword,
    length_format]

/-- The size the header gives the RIFF chunk. -/
theorem riffSize_header (dataBytes : ℕ) (rest : List UInt8) :
    wordAt (header dataBytes ++ rest) 4 = UInt32.ofNat (60 + dataBytes) := by
  rw [header_eq, List.append_assoc, List.append_assoc]
  apply wordAt_append_u32
  decide

/-- The size the header gives the data chunk. -/
theorem dataSize_header (dataBytes : ℕ) (rest : List UInt8) :
    wordAt (header dataBytes ++ rest) 64 = UInt32.ofNat dataBytes := by
  have hsplit : header dataBytes ++ rest
      = (w4 "RIFF" ++ (u32 (60 + dataBytes) ++ format)) ++ (u32 dataBytes ++ rest) := by
    rw [header_eq]
    simp only [List.append_assoc]
  have hriff : (w4 "RIFF").length = 4 := by decide
  have hword : (u32 (60 + dataBytes)).length = 4 := rfl
  rw [hsplit]
  apply wordAt_append_u32
  rw [List.length_append, List.length_append, hriff, hword, length_format]

theorem storePcm_eq (vs : List UInt32) (idx : ℕ) (pcm : List UInt32)
    (h : idx + vs.length = pcm.length) : storePcm vs idx pcm = pcm.take idx ++ vs := by
  induction vs generalizing idx pcm with
  | nil =>
    rw [List.length_nil, Nat.add_zero] at h
    rw [storePcm, List.append_nil, h, List.take_length]
  | cons v vs ih =>
    rw [List.length_cons] at h
    rw [storePcm, ih (idx + 1) _ (by rw [List.length_set]; omega)]
    have hlt : idx < (pcm.set idx v).length := by
      rw [List.length_set]
      omega
    rw [List.take_succ_eq_append_getElem hlt, List.getElem_set_self, List.take_set_of_le le_rfl,
      List.append_assoc, List.singleton_append]

theorem interleave_sample {frameSize k s : ℕ} {complete : List Planes} {planes : Planes}
    (hs : s < frameSize) (hk : complete[k]? = some planes) (c : Channel) :
    (interleave frameSize complete)[k * (frameSize * CHANNELS) + (s * CHANNELS + c.val)]?
      = some ((planes c).getD s nan) := by
  have hrow : ∀ (chs : Planes) (s : ℕ),
      ((List.finRange CHANNELS).map fun c => (chs c).getD s nan).length = CHANNELS := by
    intro chs s
    rw [List.length_map, List.length_finRange]
  have hframe : ∀ chs : Planes, ((List.range frameSize).flatMap fun s =>
      (List.finRange CHANNELS).map fun c => (chs c).getD s nan).length = frameSize * CHANNELS := by
    intro chs
    rw [length_flatMap_of_length _ fun s _ => hrow chs s, List.length_range]
  have hc : c.val < CHANNELS := c.isLt
  have hin : s * CHANNELS + c.val < frameSize * CHANNELS := by
    have : (s + 1) * CHANNELS ≤ frameSize * CHANNELS := Nat.mul_le_mul_right _ hs
    rw [Nat.add_mul] at this
    omega
  rw [interleave, getElem?_flatMap hin _ _ fun chs _ => hframe chs, hk, Option.bind_some,
    getElem?_flatMap hc _ _ fun s _ => hrow planes s, List.getElem?_range hs, Option.bind_some,
    List.getElem?_map, List.getElem?_eq_getElem (by rwa [List.length_finRange]),
    List.getElem_finRange, Option.map_some]
  rfl

theorem length_interleave (frameSize : ℕ) (complete : List Planes) :
    (interleave frameSize complete).length = complete.length * frameSize * CHANNELS := by
  rw [interleave, length_flatMap_of_length complete (n := frameSize * CHANNELS), Nat.mul_assoc]
  intro chs _
  rw [length_flatMap_of_length _ (n := CHANNELS), List.length_range]
  intro s _
  rw [List.length_map, List.length_finRange]

/-- The file is the header and the samples. -/
theorem exportWav_eq {frames rest : List (RecordedFrame UInt32)} {first : RecordedFrame UInt32}
    {frameSize : ℕ} {complete : List Planes} (hsort : sortByTs frames = first :: rest)
    (hsize : (first.channels ⟨0, channels_pos⟩).length = frameSize)
    (hfill : fillFrames frameSize first.ts (first :: rest) = some complete) :
    exportWav frames = some (some (header (complete.length * frameSize * CHANNELS * 4)
      ++ (interleave frameSize complete).flatMap putLeUInt32)) := by
  obtain ⟨dataBytes, hdata⟩ : ∃ n, n = complete.length * frameSize * CHANNELS * 4 := ⟨_, rfl⟩
  have hlen := length_interleave frameSize complete
  have hpcm : storePcm (interleave frameSize complete) 0 (List.replicate (dataBytes / 4) 0)
      = interleave frameSize complete := by
    rw [storePcm_eq _ _ _ (by rw [List.length_replicate]; omega), List.take_zero, List.nil_append]
  have hbytes : ((interleave frameSize complete).flatMap putLeUInt32).length = dataBytes := by
    rw [length_flatMap_of_length _ (n := 4) fun v _ => rfl, hlen, hdata]
  have hheader : overwrite (List.replicate (68 + dataBytes) 0) (header dataBytes) 0
      = some (header dataBytes ++ List.replicate dataBytes 0) := by
    rw [overwrite, if_pos (by rw [length_header, List.length_replicate]; omega), length_header,
      List.take_zero, List.nil_append, List.drop_replicate]
    congr 3
    omega
  have hsamples : overwrite (header dataBytes ++ List.replicate dataBytes 0)
      ((interleave frameSize complete).flatMap putLeUInt32) 68
      = some (header dataBytes ++ (interleave frameSize complete).flatMap putLeUInt32) := by
    have hfits : 68 + ((interleave frameSize complete).flatMap putLeUInt32).length
        = (header dataBytes ++ List.replicate dataBytes (0 : UInt8)).length := by
      rw [List.length_append, length_header, List.length_replicate, hbytes]
    rw [overwrite, if_pos hfits.le, hfits, List.drop_length, List.append_nil,
      ← length_header dataBytes, List.take_left]
  rw [exportWav, hsort]
  simp only [hsize, hfill, ← hdata, hheader, hpcm, hsamples, Option.bind_eq_bind, Option.bind_some]
  rfl

/-- A sample of the data chunk. -/
theorem dataSample_eq {dataBytes i : ℕ} {pcm : List UInt32} {v : UInt32} (h : pcm[i]? = some v) :
    dataSample (header dataBytes ++ pcm.flatMap putLeUInt32) i = v := by
  obtain ⟨hi, hv⟩ := List.getElem?_eq_some_iff.mp h
  have hsplit : pcm = pcm.take i ++ v :: pcm.drop (i + 1) := by
    rw [← hv, ← List.drop_eq_getElem_cons hi, List.take_append_drop]
  rw [hsplit, List.flatMap_append, List.flatMap_cons, ← List.append_assoc]
  apply wordAt_append
  rw [List.length_append, length_header, length_flatMap_of_length _ (n := 4) fun v _ => rfl,
    List.length_take, min_eq_left hi.le]

/-! ### The recording in its place -/

theorem mem_sortByTs {frames : List (RecordedFrame UInt32)} {f : RecordedFrame UInt32} :
    f ∈ sortByTs frames ↔ f ∈ frames := (List.perm_insertionSort _ _).mem_iff

theorem nodup_sortByTs {frames : List (RecordedFrame UInt32)}
    (h : (frames.map RecordedFrame.ts).Nodup) :
    ((sortByTs frames).map RecordedFrame.ts).Nodup :=
  ((List.perm_insertionSort _ _).map _).nodup_iff.mpr h

instance : Std.Total fun a b : RecordedFrame UInt32 => a.ts ≤ b.ts :=
  ⟨fun a b => le_total a.ts b.ts⟩

instance : IsTrans (RecordedFrame UInt32) fun a b => a.ts ≤ b.ts := ⟨fun _ _ _ => le_trans⟩

/-- Distinct timestamps come out of the sort strictly ascending. -/
theorem pairwise_sortByTs {frames : List (RecordedFrame UInt32)}
    (h : (frames.map RecordedFrame.ts).Nodup) :
    (sortByTs frames).Pairwise fun a b => a.ts < b.ts := by
  have hle : (sortByTs frames).Pairwise fun a b => a.ts ≤ b.ts := List.pairwise_insertionSort _ _
  have hne : (sortByTs frames).Pairwise fun a b => a.ts ≠ b.ts :=
    List.pairwise_map.mp (nodup_sortByTs h)
  exact (hle.and hne).imp fun h => lt_of_le_of_ne h.1 h.2

/-- The timeline ends behind the frame with the greatest timestamp. -/
theorem endTs_eq {frameSize : ℕ} {expectedTs : ℤ} {frames : List (RecordedFrame UInt32)}
    {last : RecordedFrame UInt32} (hsorted : frames.Pairwise fun a b => a.ts < b.ts)
    (hmem : last ∈ frames) (hmax : ∀ f ∈ frames, f.ts ≤ last.ts) :
    endTs frameSize expectedTs frames = last.ts + frameSize := by
  have hne : frames ≠ [] := List.ne_nil_of_mem hmem
  have hsplit := List.dropLast_append_getLast hne
  rw [endTs, ← hsplit, List.foldl_append, List.foldl_cons, List.foldl_nil]
  have hge : last.ts ≤ (frames.getLast hne).ts := by
    rw [← hsplit] at hmem hsorted
    rcases List.mem_append.mp hmem with hin | hin
    · exact ((List.pairwise_append.mp hsorted).2.2 _ hin _ (by simp)).le
    · rw [List.mem_singleton.mp hin]
  have hle := hmax _ (List.getLast_mem hne)
  omega

section Export

variable {frameSize : ℕ} {frames : List (RecordedFrame UInt32)} {first last : RecordedFrame UInt32}

/-- On the grid of the first frame. -/
theorem exists_index (hmin : ∀ f ∈ frames, first.ts ≤ f.ts) (hfirst : first ∈ frames)
    (hgrid : ∀ f ∈ frames, ∀ g ∈ frames, f.ts % frameSize = g.ts % frameSize)
    {f : RecordedFrame UInt32} (hf : f ∈ frames) : ∃ j : ℕ, f.ts = first.ts + j * frameSize := by
  have hdvd : (frameSize : ℤ) ∣ f.ts - first.ts :=
    Int.dvd_of_emod_eq_zero (Int.emod_eq_emod_iff_emod_sub_eq_zero.mp (hgrid f hf first hfirst))
  obtain ⟨q, hq⟩ := hdvd
  have hle := hmin f hf
  rcases Nat.eq_zero_or_pos frameSize with hzero | hpos
  · refine ⟨0, ?_⟩
    rw [hzero] at hq
    push_cast at hq ⊢
    omega
  · have hq0 : 0 ≤ q := by
      by_contra hneg
      have hlt : (frameSize : ℤ) * q < 0 :=
        mul_neg_of_pos_of_neg (by exact_mod_cast hpos) (not_le.mp hneg)
      omega
    refine ⟨q.toNat, ?_⟩
    rw [Int.toNat_of_nonneg hq0, mul_comm]
    omega

/-- The frame with the least timestamp comes first. -/
theorem exists_sorted_first (hfirst : first ∈ frames) (hmin : ∀ f ∈ frames, first.ts ≤ f.ts)
    (hnodup : (frames.map RecordedFrame.ts).Nodup) : ∃ rest, sortByTs frames = first :: rest := by
  have hsorted := pairwise_sortByTs hnodup
  have hmem := mem_sortByTs.mpr hfirst
  rcases h : sortByTs frames with - | ⟨f, rest⟩
  · rw [h] at hmem
    cases hmem
  · have hf : f ∈ frames := mem_sortByTs.mp (by rw [h]; exact List.mem_cons_self)
    rw [h] at hmem hsorted
    have hle : f.ts ≤ first.ts := by
      rcases List.mem_cons.mp hmem with rfl | hin
      · exact le_rfl
      · exact ((List.pairwise_cons.mp hsorted).1 _ hin).le
    have hts : f.ts = first.ts := le_antisymm hle (hmin f hf)
    exact ⟨rest, by rw [List.inj_on_of_nodup_map hnodup hf hfirst hts]⟩

/-- The timeline from `firstTs` to the end of the frame at `lastTs`. -/
structure Filled (frameSize : ℕ) (frames : List (RecordedFrame UInt32)) (firstTs lastTs : ℤ)
    (complete : List Planes) : Prop where
  span : (complete.length : ℤ) * frameSize = lastTs - firstTs + frameSize
  planes : ∀ k < complete.length,
    complete[k]? = some (planesAt frameSize frames (firstTs + k * frameSize))

variable {firstTs lastTs : ℤ} {complete : List Planes} {k s : ℕ}

theorem exists_filled (hF : 0 < frameSize) (hfirst : first ∈ frames) (hlast : last ∈ frames)
    (hmin : ∀ f ∈ frames, first.ts ≤ f.ts) (hmax : ∀ f ∈ frames, f.ts ≤ last.ts)
    (hnodup : (frames.map RecordedFrame.ts).Nodup)
    (hgrid : ∀ f ∈ frames, ∀ g ∈ frames, f.ts % frameSize = g.ts % frameSize) :
    ∃ complete, fillFrames frameSize first.ts (sortByTs frames) = some complete ∧
      Filled frameSize (sortByTs frames) first.ts last.ts complete := by
  have hsorted := pairwise_sortByTs hnodup
  obtain ⟨complete, hfill, hend, hplanes⟩ := fillFrames_spec hF hsorted
    fun f hf => exists_index hmin hfirst hgrid (mem_sortByTs.mp hf)
  have hends := @endTs_eq frameSize first.ts _ _ hsorted (mem_sortByTs.mpr hlast)
    fun f hf => hmax f (mem_sortByTs.mp hf)
  exact ⟨complete, hfill, by omega, hplanes⟩

/-- How many frames it has. -/
theorem Filled.length_eq (h : Filled frameSize frames firstTs lastTs complete)
    (hF : 0 < frameSize) : (lastTs - firstTs) / frameSize + 1 = complete.length := by
  have hspan := h.span
  have hspan' : lastTs - firstTs = ((complete.length : ℤ) - 1) * frameSize := by
    rw [sub_mul, one_mul]
    omega
  rw [hspan', Int.mul_ediv_cancel _ (by exact_mod_cast hF.ne')]
  omega

/-- A frame that begins before the end is one of them. -/
theorem Filled.lt_length (h : Filled frameSize frames firstTs lastTs complete)
    (hk : firstTs + k * frameSize < lastTs + frameSize) : k < complete.length := by
  have hspan := h.span
  by_contra hge
  have hle : (complete.length : ℤ) * frameSize ≤ k * frameSize :=
    mul_le_mul_of_nonneg_right (by omega) (Int.natCast_nonneg frameSize)
  omega

/-- The sample at `s` samples into frame `k`. -/
theorem Filled.sample (h : Filled frameSize frames firstTs lastTs complete)
    (hk : k < complete.length) (hs : s < frameSize) (dataBytes : ℕ) (c : Channel) :
    dataSample (header dataBytes ++ (interleave frameSize complete).flatMap putLeUInt32)
        ((k * frameSize + s) * 16 + c.val)
      = (planesAt frameSize frames (firstTs + k * frameSize) c).getD s nan := by
  have hidx : (k * frameSize + s) * 16 + c.val
      = k * (frameSize * CHANNELS) + (s * CHANNELS + c.val) := by
    rw [Nat.add_mul, Nat.mul_assoc, Nat.add_assoc]
  rw [hidx]
  apply dataSample_eq
  exact interleave_sample hs (h.planes k hk) c

/-- Where a frame covers the time, its sample. -/
theorem Filled.covered (h : Filled frameSize (sortByTs frames) first.ts last.ts complete)
    (hnodup : (frames.map RecordedFrame.ts).Nodup) (hmax : ∀ f ∈ frames, f.ts ≤ last.ts)
    {f : RecordedFrame UInt32} (hf : f ∈ frames) {c : Channel}
    (hplane : (f.channels c).length = frameSize) (hk : f.ts = first.ts + k * frameSize) {t : ℤ}
    (hcov : Covers frameSize f t) (dataBytes : ℕ) :
    (f.channels c)[(t - f.ts).toNat]? = some (dataSample
      (header dataBytes ++ (interleave frameSize complete).flatMap putLeUInt32)
      ((t - first.ts).toNat * 16 + c.val)) := by
  obtain ⟨hle, hlt⟩ := hcov
  have hs : (t - f.ts).toNat < frameSize := by omega
  have hklen : k < complete.length := by
    apply h.lt_length
    have hmax' := hmax f hf
    omega
  have ht : (t - first.ts).toNat = k * frameSize + (t - f.ts).toNat := by
    have hpos : (0 : ℤ) ≤ k * frameSize := by positivity
    apply Int.natCast_inj.mp
    push_cast
    rw [Int.toNat_of_nonneg (by omega), Int.toNat_of_nonneg (by omega)]
    omega
  have hchan : planesAt frameSize (sortByTs frames) f.ts = f.channels :=
    planesAt_of_mem (nodup_sortByTs hnodup) (mem_sortByTs.mpr hf)
  have hslt : (t - f.ts).toNat < (f.channels c).length := by rwa [hplane]
  rw [ht, h.sample hklen hs, ← hk, hchan, List.getElem?_eq_getElem hslt,
    List.getD_eq_getElem _ _ hslt]

/-- Where none does, silence. -/
theorem Filled.silent (h : Filled frameSize frames firstTs lastTs complete) (hF : 0 < frameSize)
    {t : ℤ} (hge : firstTs ≤ t) (hlt : t < lastTs + frameSize)
    (hnone : ∀ f ∈ frames, ¬Covers frameSize f t) (dataBytes : ℕ) (c : Channel) :
    dataSample (header dataBytes ++ (interleave frameSize complete).flatMap putLeUInt32)
      ((t - firstTs).toNat * 16 + c.val) = 0 := by
  obtain ⟨k, s, hs, ht⟩ : ∃ k s : ℕ, s < frameSize ∧ (t - firstTs).toNat = k * frameSize + s :=
    ⟨(t - firstTs).toNat / frameSize, (t - firstTs).toNat % frameSize, Nat.mod_lt _ hF,
      (Nat.div_add_mod' _ _).symm⟩
  have htz : t - firstTs = k * frameSize + s := by
    have : ((t - firstTs).toNat : ℤ) = k * frameSize + s := by exact_mod_cast ht
    omega
  have hklen : k < complete.length := h.lt_length (by omega)
  rw [ht, h.sample hklen hs, planesAt_of_not_mem, silence,
    List.getD_eq_getElem _ _ (by rwa [List.length_replicate]), List.getElem_replicate]
  intro f hf hts
  exact hnone f hf ⟨by omega, by omega⟩

/-- **A recording is exported time-aligned**: for frames in any order with distinct
timestamps on one grid, the file holds every sample at its absolute time and
silence where no frame covers it, and its sizes are those of its bytes. -/
theorem exportWav_timeAligned (hF : 0 < frameSize) (hfirst : first ∈ frames) (hlast : last ∈ frames)
    (hmin : ∀ f ∈ frames, first.ts ≤ f.ts) (hmax : ∀ f ∈ frames, f.ts ≤ last.ts)
    (hnodup : (frames.map RecordedFrame.ts).Nodup)
    (hgrid : ∀ f ∈ frames, ∀ g ∈ frames, f.ts % frameSize = g.ts % frameSize)
    (hplanes : ∀ f ∈ frames, ∀ c, (f.channels c).length = frameSize)
    (htotal : 68 + ((last.ts - first.ts) / frameSize + 1) * frameSize * 16 * 4 < 2 ^ 32) :
    ∃ file, exportWav frames = some (some file) ∧
      TimeAligned frameSize frames first.ts last.ts file := by
  obtain ⟨rest, hsort⟩ := exists_sorted_first hfirst hmin hnodup
  obtain ⟨complete, hfill, hfilled⟩ := exists_filled hF hfirst hlast hmin hmax hnodup hgrid
  have hcount := hfilled.length_eq hF
  obtain ⟨dataBytes, hdata⟩ : ∃ n, n = complete.length * frameSize * CHANNELS * 4 := ⟨_, rfl⟩
  have hfile : exportWav frames = some (some (header dataBytes
      ++ (interleave frameSize complete).flatMap putLeUInt32)) := by
    rw [hsort] at hfill
    rw [exportWav_eq hsort (hplanes first hfirst 0) hfill, hdata]
  have hbytes : (header dataBytes
      ++ (interleave frameSize complete).flatMap putLeUInt32).length = 68 + dataBytes := by
    rw [List.length_append, length_header, length_flatMap_of_length _ (n := 4) fun v _ => rfl,
      length_interleave, hdata]
  -- the size fits the 32 bits of the header
  have hsmall : 68 + dataBytes < 2 ^ 32 := by
    rw [hcount] at htotal
    rw [hdata]
    exact_mod_cast htotal
  have htoNat : ∀ n, n < 2 ^ 32 → (UInt32.ofNat n).toNat = n := fun n hn => by
    rw [UInt32.toNat_ofNat']
    exact Nat.mod_eq_of_lt hn
  refine ⟨_, hfile, ?_⟩
  constructor
  case length =>
    rw [hbytes, hcount, hdata]
    push_cast
    rfl
  case riffSize =>
    rw [riffSize_header, htoNat _ (by omega), hbytes]
    omega
  case dataSize =>
    rw [dataSize_header, htoNat _ (by omega), hbytes]
    omega
  -- a frame of the take is found at its own place; between frames there is silence
  case covered =>
    intro t c f hf hcov
    obtain ⟨k, hk⟩ := exists_index hmin hfirst hgrid hf
    exact hfilled.covered hnodup hmax hf (hplanes f hf c) hk hcov dataBytes
  case silent =>
    intro t c hge hlt hnone
    exact hfilled.silent hF hge hlt (fun f hf => hnone f (mem_sortByTs.mp hf)) dataBytes c

end Export

/-- A frame of two samples on every channel. -/
def pair (ts : ℤ) (v : UInt32) : RecordedFrame UInt32 := ⟨ts, fun _ => [v, v]⟩

/-- Two frames in the wrong order, with one missing between them. -/
theorem exportWav_timeAligned_pairs :
    ∃ file, exportWav [pair 4 7, pair 0 9] = some (some file) ∧
      TimeAligned 2 [pair 4 7, pair 0 9] 0 4 file :=
  exportWav_timeAligned (show 0 < 2 by decide) (show pair 0 9 ∈ _ by simp)
    (show pair 4 7 ∈ _ by simp) (by simp [pair]) (by simp [pair]) (by decide) (by simp [pair])
    (by simp [pair]) (by decide)

end AmbiRTC.Recording
