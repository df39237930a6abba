/-
AmbiRTC/BundleParse.lean

What `ParseBundle` does on every packet.  `binary.Uvarint` is the 64-bit
restriction of the LEB128 reader of the library, and the table loop reads a
LEB128 table whose sum it keeps modulo `2^64`.  From there each outcome is one
lemma: a bad header, a table that does not decode, lengths that fit, lengths that
overrun the packet, and lengths whose sum wraps past the bounds check, where a
slice expression panics.

Main results: `parseBundle_of_fits` (what a well-formed packet is parsed to), and
`parseBundle_exact_iff`: the parser meets its contract on a packet if and only if
the sum of its lengths does not wrap so; `wrappingPacket` is one where it does.
-/
import AmbiRTC.Bundle
import AmbiRTC.Leb128
import Mathlib.Data.List.SplitLengths

namespace AmbiRTC

open GoSlice Words

/-! ### binary.Uvarint reads LEB128 -/

theorem byte_lt_128 {b : UInt8} : b < 0x80 ↔ b.toNat < 128 := UInt8.lt_iff_toNat_lt

/-- One more group above the `7i` bits already read. -/
theorem group_lt {x b i : ℕ} (hx : x < 2 ^ (7 * i)) (hb : b < 128) :
    x + 2 ^ (7 * i) * b < 2 ^ (7 * (i + 1)) := by
  have hstep : 2 ^ (7 * i) * b ≤ 2 ^ (7 * i) * 127 := Nat.mul_le_mul_left _ (by omega)
  rw [show 7 * (i + 1) = 7 * i + 7 by ring, pow_add]
  omega

/-- Regrouping: a continued number seen from one group further on. -/
theorem group_shift (x b v i : ℕ) :
    x + 2 ^ (7 * i) * (b + 128 * v) = x + 2 ^ (7 * i) * b + 2 ^ (7 * (i + 1)) * v := by
  rw [show 7 * (i + 1) = 7 * i + 7 by ring, pow_add]
  ring

theorem pow_group_le {i : ℕ} (hi : i ≤ 9) : 2 ^ (7 * i) ≤ 2 ^ 63 :=
  Nat.pow_le_pow_right (by decide) (by omega)

/-- The accumulator after a continuation byte. -/
theorem toNat_group {x : UInt64} {b : UInt8} {i : ℕ} (hi : i ≤ 8) (hx : x.toNat < 2 ^ (7 * i))
    (hb : ¬ b.toNat < 128) :
    (x ||| (b &&& 0x7f).toUInt64 <<< UInt64.ofNat (7 * i)).toNat
      = x.toNat + 2 ^ (7 * i) * (b.toNat - 128) := by
  have hlt := b.toNat_lt
  have hlow : (b &&& 0x7f).toNat = b.toNat - 128 := by
    rw [and_127]
    omega
  have hfit : (b.toNat - 128) * 2 ^ (7 * i) < 2 ^ 64 := by
    calc (b.toNat - 128) * 2 ^ (7 * i) ≤ 127 * 2 ^ 56 :=
          Nat.mul_le_mul (by omega) (Nat.pow_le_pow_right (by decide) (by omega))
      _ < 2 ^ 64 := by norm_num
  rw [toNat_or_shiftLeft_64 hx (by omega) (by rw [hlow]; exact hfit), hlow]

theorem uvarintLoop_cons_last {b : UInt8} (rest : List UInt8) {i : ℕ} (x : UInt64) (s : ℕ)
    (hi : i ≤ 9) (hb : b.toNat < 128) (hlast : ¬ (i = 9 ∧ 1 < b.toNat)) :
    uvarintLoop (b :: rest) i x s = (x ||| b.toUInt64 <<< UInt64.ofNat s, (i : ℤ) + 1) := by
  have h1 : b > 1 ↔ 1 < b.toNat := UInt8.lt_iff_toNat_lt
  rw [uvarintLoop, if_neg (by simp only [maxVarintLen64]; omega), if_pos (byte_lt_128.mpr hb),
    if_neg (by simpa [maxVarintLen64, h1] using hlast)]

theorem uvarintLoop_cons_more {b : UInt8} (rest : List UInt8) {i : ℕ} (x : UInt64) (s : ℕ)
    (hi : i ≤ 9) (hb : ¬ b.toNat < 128) :
    uvarintLoop (b :: rest) i x s
      = uvarintLoop rest (i + 1) (x ||| (b &&& 0x7f).toUInt64 <<< UInt64.ofNat s) (s + 7) := by
  rw [uvarintLoop, if_neg (by simp only [maxVarintLen64]; omega),
    if_neg (by rwa [byte_lt_128])]

/-- The loop on a number it accepts: with `i` groups already in `x`, the rest
of the number goes in above them. -/
theorem uvarintLoop_of_decode {buf : List UInt8} {v k i : ℕ} {x : UInt64}
    (hd : Leb128.decode buf = some (v, k)) (hk : i + k ≤ 10) (hx : x.toNat < 2 ^ (7 * i))
    (hv : x.toNat + 2 ^ (7 * i) * v < 2 ^ 64) :
    uvarintLoop buf i x (7 * i)
      = (UInt64.ofNat (x.toNat + 2 ^ (7 * i) * v), (i : ℤ) + k) := by
  induction buf generalizing v k i x with
  | nil => cases hd
  | cons b rest ih =>
    by_cases hb : b.toNat < 128
    · rw [Leb128.decode_cons_last rest hb] at hd
      obtain ⟨rfl, rfl⟩ := Prod.mk.inj (Option.some.inj hd)
      -- a tenth byte above 1 would put the number past 64 bits
      have hlast : ¬ (i = 9 ∧ 1 < b.toNat) := by
        rintro ⟨rfl, h⟩
        omega
      rw [uvarintLoop_cons_last rest x _ (by omega) hb hlast]
      congr 1
      apply UInt64.toNat_inj.mp
      rw [UInt64.toNat_ofNat', Nat.mod_eq_of_lt hv,
        toNat_or_shiftLeft_64 hx (by omega) (by rw [Nat.mul_comm]; omega)]
    · obtain ⟨v', k', hr, rfl, rfl⟩ := Leb128.decode_cons_more_some hb hd
      have hk' := Leb128.decode_pos hr
      have hb' : b.toNat - 128 < 128 := by have := b.toNat_lt; omega
      have hacc := toNat_group (i := i) (by omega) hx hb
      rw [group_shift] at hv
      rw [uvarintLoop_cons_more rest x _ (by omega) hb, show 7 * i + 7 = 7 * (i + 1) by ring,
        ih hr (by omega) (by rw [hacc]; exact group_lt hx hb') (by rw [hacc]; exact hv), hacc,
        group_shift]
      congr 1
      push_cast
      ring

/-- The loop on everything else: a count of at most zero. -/
theorem uvarintLoop_of_bad {buf : List UInt8} {i : ℕ} {x : UInt64} (hi : i ≤ 10)
    (hx : i ≤ 9 → x.toNat < 2 ^ (7 * i))
    (hbad : ∀ v k, Leb128.decode buf = some (v, k) →
      ¬ (i + k ≤ 10 ∧ x.toNat + 2 ^ (7 * i) * v < 2 ^ 64)) :
    (uvarintLoop buf i x (7 * i)).2 ≤ 0 := by
  induction buf generalizing i x with
  | nil => exact le_rfl
  | cons b rest ih =>
    by_cases hi9 : i ≤ 9
    · have hx' := hx hi9
      by_cases hb : b.toNat < 128
      · -- a terminator is refused in the tenth byte only, for the bits it would lose
        have hno := hbad b.toNat 1 (Leb128.decode_cons_last rest hb)
        have hgrp := group_lt hx' hb
        have h9 : i = 9 := by
          by_contra hne
          have hle : 2 ^ (7 * (i + 1)) ≤ 2 ^ 63 := pow_group_le (by omega)
          exact hno ⟨by omega, by omega⟩
        subst h9
        have h1 : 1 < b.toNat := by
          by_contra h
          exact hno ⟨by omega, by omega⟩
        have hb1 : b > 1 := UInt8.lt_iff_toNat_lt.mpr h1
        rw [uvarintLoop, if_neg (by decide), if_pos (byte_lt_128.mpr hb),
          if_pos ⟨rfl, hb1⟩]
        norm_num
      · rw [uvarintLoop_cons_more rest x _ hi9 hb, show 7 * i + 7 = 7 * (i + 1) by ring]
        refine ih (by omega) (fun h8 => ?_) fun v' k' hr hfits => ?_
        · rw [toNat_group (by omega) hx' hb]
          exact group_lt hx' (by have := b.toNat_lt; omega)
        · have hk' := Leb128.decode_pos hr
          rw [toNat_group (by omega) hx' hb, ← group_shift] at hfits
          refine hbad _ _ (by rw [Leb128.decode_cons_more rest hb, hr]; rfl) ⟨by omega, hfits.2⟩
    · -- an eleventh byte is never read
      have h10 : i = maxVarintLen64 := by simp only [maxVarintLen64]; omega
      rw [uvarintLoop, if_pos h10]
      simp only
      omega

theorem uvarint_of_decode64 {buf : List UInt8} {v k : ℕ}
    (h : Leb128.decode64 buf = some (v, k)) : uvarint buf = (UInt64.ofNat v, (k : ℤ)) := by
  obtain ⟨hd, hk, hv⟩ := Leb128.decode64_eq_some.mp h
  have := uvarintLoop_of_decode (i := 0) (x := 0) hd (by omega) (by simp) (by simpa using hv)
  simpa [uvarint] using this

theorem uvarint_of_none {buf : List UInt8} (h : Leb128.decode64 buf = none) :
    (uvarint buf).2 ≤ 0 := by
  refine uvarintLoop_of_bad (i := 0) (x := 0) (by omega) (fun _ => by simp) fun v k hd hfits => ?_
  refine Leb128.decode64_eq_none.mp h v k hd ⟨by omega, by simpa using hfits.2⟩

/-! ### Lengths as 64-bit ints -/

theorem bmod_of_lt {n : ℤ} (h₀ : -2 ^ 63 ≤ n) (h₁ : n < 2 ^ 63) : n.bmod (2 ^ 64) = n :=
  Int.bmod_eq_of_le (by norm_num; omega) (by norm_num; omega)

theorem toInt_ofNat_bmod (n : ℕ) : (Int64.ofNat n).toInt = (n : ℤ).bmod (2 ^ 64) :=
  Int64.toInt_ofNat'

/-- The lengths of a table as `ParseBundle` keeps them. -/
def intLengths (vs : List ℕ) : List Int64 := vs.map Int64.ofNat

@[simp] theorem intLengths_cons (v : ℕ) (vs : List ℕ) :
    intLengths (v :: vs) = Int64.ofNat v :: intLengths vs := rfl

/-! ### The length table -/

/-- The table loop reads a LEB128 table; its running sum is exact mod `2^64`. -/
theorem readLengths_of_table {buf : Slice UInt8} {n off : ℕ} {sum : Int64} {vs : List ℕ}
    {rest : List UInt8} (hoff : off ≤ buf.data.length)
    (h : Leb128.table n (buf.data.drop off) = some (vs, rest)) :
    ∃ off' sum', readLengths buf n off sum = some (.ok (off', intLengths vs, sum')) ∧
      off' ≤ buf.data.length ∧ buf.data.drop off' = rest ∧
      sum'.toInt = (sum.toInt + vs.sum).bmod (2 ^ 64) := by
  induction n generalizing off sum vs with
  | zero =>
    obtain ⟨rfl, rfl⟩ := Prod.mk.inj (Option.some.inj h)
    exact ⟨off, sum, rfl, hoff, rfl, by simp⟩
  | succ n ih =>
    obtain ⟨v, k, vs', hd, ht, rfl⟩ := Leb128.table_succ_eq_some.mp h
    have hk := Leb128.decode64_le_length hd
    have hk1 := Leb128.decode_pos (Leb128.decode64_eq_some.mp hd).1
    rw [List.length_drop] at hk
    rw [List.drop_drop] at ht
    obtain ⟨off', sum', hr, hoff', hrest, hsum⟩ :=
      @ih (off + k) (sum + (UInt64.ofNat v).toInt64) vs' (by omega) ht
    obtain ⟨tail, htail, hdata⟩ := Slice.dropFrom_of_le hoff
    refine ⟨off', sum', ?_, hoff', hrest, ?_⟩
    · simp only [readLengths, htail, hdata, uvarint_of_decode64 hd, Option.bind_eq_bind,
        Option.bind_some, Int.toNat_natCast, hr, intLengths_cons]
      rw [if_neg (by omega), UInt64.toInt64_ofNat']
    · rw [hsum, UInt64.toInt64_ofNat', Int64.toInt_add, toInt_ofNat_bmod, Int.bmod_add_bmod,
        List.sum_cons, add_assoc, ← Int.add_bmod_bmod, Int.bmod_add_bmod, Int.add_bmod_bmod]
      push_cast
      rfl

/-- The table loop reports a table that does not decode. -/
theorem readLengths_of_none {buf : Slice UInt8} {n off : ℕ} {sum : Int64}
    (hoff : off ≤ buf.data.length) (h : Leb128.table n (buf.data.drop off) = none) :
    readLengths buf n off sum = some (.error .bundleLength) := by
  induction n generalizing off sum with
  | zero => cases h
  | succ n ih =>
    obtain ⟨tail, htail, hdata⟩ := Slice.dropFrom_of_le hoff
    rcases hd : Leb128.decode64 (buf.data.drop off) with - | ⟨v, k⟩
    · simp only [readLengths, htail, hdata, Option.bind_eq_bind, Option.bind_some]
      rw [if_pos (uvarint_of_none hd)]
    · have hk := Leb128.decode64_le_length hd
      have hk1 := Leb128.decode_pos (Leb128.decode64_eq_some.mp hd).1
      rw [List.length_drop] at hk
      simp only [Leb128.table, hd, Option.map_eq_none_iff, List.drop_drop] at h
      have hr := @ih (off + k) (sum + (UInt64.ofNat v).toInt64) (by omega) h
      simp only [readLengths, htail, hdata, uvarint_of_decode64 hd, Option.bind_eq_bind,
        Option.bind_some, Int.toNat_natCast, hr]
      rw [if_neg (by omega)]

/-! ### Cutting the payloads -/

/-- Lengths that fit are cut in order. -/
theorem cutPayloads_of_fits {region : Slice UInt8} {idxs : List UInt8} {vs : List ℕ} {p : ℕ}
    (hlen : idxs.length = vs.length) (hfit : p + vs.sum ≤ region.data.length) :
    cutPayloads region idxs (intLengths vs) (Int64.ofNat p)
      = some (List.zipWith ChannelPayload.mk idxs (vs.splitLengths (region.data.drop p))) := by
  have hlt := region.length_lt
  induction vs generalizing idxs p with
  | nil =>
    obtain rfl := List.length_eq_zero_iff.mp hlen
    rfl
  | cons v vs ih =>
    obtain ⟨c, idxs, rfl⟩ := List.exists_cons_of_length_eq_add_one hlen
    rw [List.sum_cons] at hfit
    have hp : (Int64.ofNat p).toInt = p := Int64.toInt_ofNat_of_lt (by omega)
    have hadd : Int64.ofNat p + Int64.ofNat v = Int64.ofNat (p + v) := by
      rw [Int64.ofNat_add]
    have hpv : (Int64.ofNat (p + v)).toInt = ((p + v : ℕ) : ℤ) :=
      Int64.toInt_ofNat_of_lt (by omega)
    obtain ⟨t, ht, hdata⟩ :=
      @Slice.sub_of_le _ region p (p + v) (by omega) (by omega)
    have hrest := @ih idxs (p + v) (by simpa using hlen) (by omega)
    simp only [intLengths_cons, cutPayloads, hadd, hp, hpv, ht, hrest, Option.bind_eq_bind,
      Option.bind_some, hdata, List.splitLengths_cons, List.zipWith_cons_cons, List.drop_drop]
    rw [Nat.add_sub_cancel_left]

/-- A cut that does not panic has summed its lengths without wrapping. -/
theorem sum_le_cap_of_cutPayloads {region : Slice UInt8} {idxs : List UInt8} {vs : List ℕ}
    {tail : List Int64} {p : Int64} {chans : List ChannelPayload}
    (hlen : vs.length ≤ idxs.length) (hvs : ∀ v ∈ vs, v < 2 ^ 64)
    (hp : 0 ≤ p.toInt ∧ p.toInt ≤ region.cap)
    (h : cutPayloads region idxs (intLengths vs ++ tail) p = some chans) :
    p.toInt + vs.sum ≤ region.cap := by
  have hcap := region.cap_lt
  induction vs generalizing idxs p chans with
  | nil => simpa using hp.2
  | cons v vs ih =>
    obtain ⟨c, idxs, rfl⟩ := List.exists_cons_of_length_pos (Nat.lt_of_lt_of_le (by simp) hlen)
    have hv := hvs v (by simp)
    simp only [intLengths_cons, List.cons_append, cutPayloads, Option.bind_eq_bind,
      Option.bind_eq_some_iff] at h
    obtain ⟨t, ht, rest, hrest, -⟩ := h
    obtain ⟨-, hle, hhi⟩ := Slice.sub_bounds ht
    -- the slice check leaves no room for a wrapped addition
    have hstep : (p + Int64.ofNat v).toInt = p.toInt + v := by
      rw [Int64.toInt_add, toInt_ofNat_bmod, Int.add_bmod_bmod] at hle hhi ⊢
      simp only [Slice.cap] at hp hhi
      rw [Int.bmod_eq_emod] at hle hhi ⊢
      split at hle <;> simp_all <;> omega
    have := @ih idxs _ _ (by simpa using hlen) (fun w hw => hvs w (by simp [hw]))
      ⟨by omega, hhi⟩ hrest
    rw [hstep] at this
    rw [List.sum_cons]
    push_cast at this ⊢
    omega

/-! ### Packets, as the format describes them -/

/-- The channel mask of a packet. -/
def chMask (buf : List UInt8) : ℕ := (buf.getD 5 0).toNat + 2 ^ 8 * (buf.getD 6 0).toNat

/-- The channels a packet carries, ascending. -/
def presentChannels (buf : List UInt8) : List ℕ := setBits channels (chMask buf)

/-- A complete header of this version that names at least one channel. -/
structure HeaderOk (buf : List UInt8) : Prop where
  length : 7 ≤ buf.length
  version : (buf.getD 0 0).toNat / 16 = 1
  mask : chMask buf ≠ 0

/-- The explicit lengths of a packet and the bytes behind the table. -/
def lengthTable (buf : List UInt8) : Option (List ℕ × List UInt8) :=
  Leb128.table ((presentChannels buf).length - 1) (buf.drop 7)

/-- A well-formed packet: its explicit lengths, summed as numbers, leave the
last payload a length. -/
def Accepts (buf : List UInt8) : Prop :=
  HeaderOk buf ∧ ∃ vs rest, lengthTable buf = some (vs, rest) ∧ vs.sum ≤ rest.length

/-- The result a well-formed packet stands for. -/
def bundleResult (buf : List UInt8) (vs : List ℕ) (rest : List UInt8) : BundleReturn where
  frameTs := leUInt32 (buf.getD 1 0) (buf.getD 2 0) (buf.getD 3 0) (buf.getD 4 0)
  chans := List.zipWith ChannelPayload.mk ((presentChannels buf).map UInt8.ofNat)
    ((vs ++ [rest.length - vs.sum]).splitLengths rest)
  isRec := decide (buf.getD 0 0 &&& bundleFlagIsRec ≠ 0)
  err := none

theorem chMask_lt (buf : List UInt8) : chMask buf < 2 ^ 16 := by
  have h₅ := (buf.getD 5 0).toNat_lt
  have h₆ := (buf.getD 6 0).toNat_lt
  simp only [chMask]
  omega

theorem presentChannels_lt {buf : List UInt8} {c : ℕ} (h : c ∈ presentChannels buf) : c < 16 :=
  (mem_setBits.mp h).1

theorem length_presentChannels_pos {buf : List UInt8} (h : chMask buf ≠ 0) :
    0 < (presentChannels buf).length :=
  List.length_pos_of_ne_nil fun hnil => h ((setBits_eq_nil (chMask_lt buf)).mp hnil)

theorem toNat_leUInt16_mask (buf : List UInt8) :
    (leUInt16 (buf.getD 5 0) (buf.getD 6 0)).toNat = chMask buf := toNat_leUInt16 _ _

theorem onesCount16_mask (buf : List UInt8) :
    onesCount16 (leUInt16 (buf.getD 5 0) (buf.getD 6 0)) = (presentChannels buf).length := by
  rw [onesCount16, List.countP_eq_length_filter, toNat_leUInt16_mask]
  rfl

theorem toUInt16_ofNat {c : ℕ} (hc : c < 256) : (UInt8.ofNat c).toUInt16 = UInt16.ofNat c := by
  apply UInt16.toNat_inj.mp
  rw [UInt8.toNat_toUInt16, UInt8.toNat_ofNat', UInt16.toNat_ofNat']
  omega

theorem maskIdxs_mask (buf : List UInt8) :
    maskIdxs (leUInt16 (buf.getD 5 0) (buf.getD 6 0))
      = (presentChannels buf).map UInt8.ofNat := by
  rw [maskIdxs, List.filter_map, presentChannels, setBits]
  congr 1
  refine List.filter_congr fun c hc => ?_
  have hc16 : c < 16 := List.mem_range.mp hc
  simp only [Function.comp_apply, toUInt16_ofNat (show c < 256 by omega)]
  rw [Bool.eq_iff_iff, decide_eq_true_iff, and_bit_ne_zero_16 _ hc16, toNat_leUInt16_mask]

/-! ### ParseBundle, outcome by outcome -/

theorem version_iff (b : UInt8) : b >>> 4 = bundleVersion ↔ b.toNat / 16 = 1 := by
  rw [← UInt8.toNat_inj, shiftRight_4]
  rfl

/-- A bad header is reported, whichever check finds it. -/
theorem parseBundle_of_not_headerOk {buf : Slice UInt8} (h : ¬ HeaderOk buf.data) :
    ∃ r e, parseBundle buf = some r ∧ r.err = some e := by
  by_cases hlen : buf.data.length < 7
  · exact ⟨_, .bundleShort, by simp only [parseBundle]; rw [if_pos hlen], rfl⟩
  by_cases hver : buf.data.getD 0 0 >>> 4 = bundleVersion
  · have hmask : chMask buf.data = 0 := by
      by_contra hne
      exact h ⟨by omega, (version_iff _).mp hver, hne⟩
    have hk : (presentChannels buf.data).length = 0 := by
      rw [presentChannels, hmask]
      rfl
    have hret : ∃ r, parseBundle buf = some r ∧ r.err = some .bundleEmpty := by
      simp only [parseBundle]
      rw [if_neg hlen, if_neg (not_not_intro hver), if_pos (by rw [onesCount16_mask, hk])]
      exact ⟨_, rfl, rfl⟩
    obtain ⟨r, hr, he⟩ := hret
    exact ⟨r, _, hr, he⟩
  · exact ⟨_, .bundleVersion, by simp only [parseBundle]; rw [if_neg hlen, if_pos hver], rfl⟩

/-- Past the header `ParseBundle` is its table loop and what follows it. -/
theorem parseBundle_of_headerOk {buf : Slice UInt8} (h : HeaderOk buf.data) :
    parseBundle buf = (do
      match ← readLengths buf ((presentChannels buf.data).length - 1) 7 0 with
      | .error e => some (.fail e)
      | .ok (off, lengths, sum) =>
          let region ← buf.dropFrom off
          if sum > region.len then some (.fail .bundleLength)
          else
            let chans ← cutPayloads region ((presentChannels buf.data).map UInt8.ofNat)
              (lengths ++ [region.len - sum]) 0
            some { bundleResult buf.data [] [] with chans := chans }) := by
  have hlen := h.length
  have hpos := length_presentChannels_pos h.mask
  simp only [parseBundle]
  rw [if_neg (by omega), if_neg (not_not_intro ((version_iff _).mpr h.version)),
    if_neg (by rw [onesCount16_mask]; omega), onesCount16_mask, maskIdxs_mask]
  rfl

theorem parseBundle_of_no_table {buf : Slice UInt8} (h : HeaderOk buf.data)
    (ht : lengthTable buf.data = none) : parseBundle buf = some (.fail .bundleLength) := by
  rw [parseBundle_of_headerOk h, readLengths_of_none h.length ht]
  rfl

/-- Past a table that decodes: the sum is compared as it wrapped. -/
theorem parseBundle_of_table {buf : Slice UInt8} {vs : List ℕ} {rest : List UInt8}
    (h : HeaderOk buf.data) (ht : lengthTable buf.data = some (vs, rest)) :
    ∃ (region : Slice UInt8) (sum : Int64), region.data = rest ∧
      sum.toInt = (vs.sum : ℤ).bmod (2 ^ 64) ∧
      parseBundle buf =
        if sum > region.len then some (.fail .bundleLength)
        else (cutPayloads region ((presentChannels buf.data).map UInt8.ofNat)
          (intLengths vs ++ [region.len - sum]) 0).map
            fun chans => { bundleResult buf.data [] [] with chans := chans } := by
  obtain ⟨off, sum, hr, hoff, hrest, hsum⟩ :=
    @readLengths_of_table buf _ 7 0 vs rest h.length ht
  obtain ⟨region, hregion, hdata⟩ := Slice.dropFrom_of_le hoff
  refine ⟨region, sum, by rw [hdata, hrest], by simpa using hsum, ?_⟩
  rw [parseBundle_of_headerOk h, hr]
  simp only [Option.bind_eq_bind, Option.bind_some, hregion]
  split
  · rfl
  · exact Option.map_eq_bind.symm

theorem parseBundle_of_overrun {buf : Slice UInt8} {vs : List ℕ} {rest : List UInt8}
    (h : HeaderOk buf.data) (ht : lengthTable buf.data = some (vs, rest))
    (hover : (rest.length : ℤ) < (vs.sum : ℤ).bmod (2 ^ 64)) :
    parseBundle buf = some (.fail .bundleLength) := by
  obtain ⟨region, sum, hdata, hsum, hp⟩ := parseBundle_of_table h ht
  rw [hp, if_pos]
  rw [gt_iff_lt, Int64.lt_iff_toInt_lt, Slice.toInt_len, hdata, hsum]
  exact hover

theorem length_intLengths_eq {buf : List UInt8} {vs : List ℕ} {rest : List UInt8}
    (h : HeaderOk buf) (ht : lengthTable buf = some (vs, rest)) :
    (presentChannels buf).length = vs.length + 1 := by
  have hlen := Leb128.table_length ht
  have hpos := length_presentChannels_pos h.mask
  omega

theorem parseBundle_of_fits {buf : Slice UInt8} {vs : List ℕ} {rest : List UInt8}
    (h : HeaderOk buf.data) (ht : lengthTable buf.data = some (vs, rest))
    (hfit : vs.sum ≤ rest.length) :
    parseBundle buf = some (bundleResult buf.data vs rest) := by
  obtain ⟨region, sum, hdata, hsum, hp⟩ := parseBundle_of_table h ht
  have hlt := region.length_lt
  rw [hdata] at hlt
  -- lengths that fit in a slice do not wrap, nor does what they leave for the last payload
  rw [bmod_of_lt (by omega) (by omega)] at hsum
  have hlast : region.len - sum = Int64.ofNat (rest.length - vs.sum) := by
    apply Int64.toInt_inj.mp
    rw [Int64.toInt_sub, Slice.toInt_len, hdata, hsum, Int64.toInt_ofNat_of_lt (by omega),
      bmod_of_lt (by omega) (by omega)]
    omega
  have hlengths : intLengths vs ++ [region.len - sum]
      = intLengths (vs ++ [rest.length - vs.sum]) := by
    rw [hlast, intLengths, intLengths, List.map_append]
    rfl
  have hcut := @cutPayloads_of_fits region ((presentChannels buf.data).map UInt8.ofNat)
    (vs ++ [rest.length - vs.sum]) 0 (by simpa using length_intLengths_eq h ht)
    (by rw [hdata, List.sum_append, List.sum_singleton]; omega)
  rw [List.drop_zero, hdata] at hcut
  rw [hp, if_neg, hlengths, show (0 : Int64) = Int64.ofNat 0 from rfl, hcut]
  · rfl
  · rw [gt_iff_lt, Int64.lt_iff_toInt_lt, Slice.toInt_len, hdata, hsum]
    omega

/-- A wrapped sum that passes the check runs into a slice out of range. -/
theorem parseBundle_of_wraps {buf : Slice UInt8} {vs : List ℕ} {rest : List UInt8}
    (h : HeaderOk buf.data) (ht : lengthTable buf.data = some (vs, rest))
    (hpass : (vs.sum : ℤ).bmod (2 ^ 64) ≤ rest.length) (hbig : 2 ^ 63 ≤ vs.sum) :
    parseBundle buf = none := by
  obtain ⟨region, sum, hdata, hsum, hp⟩ := parseBundle_of_table h ht
  rw [hp, if_neg]
  · rw [Option.map_eq_none_iff, Option.eq_none_iff_forall_ne_some]
    -- cutting without a panic would need a slice of 2^63 bytes or more
    intro chans hcut
    have hle := sum_le_cap_of_cutPayloads
      (by simpa using (length_intLengths_eq h ht).ge.trans' (Nat.le_succ _))
      (Leb128.table_lt ht) ⟨by simp, by simp⟩ hcut
    have hcap := region.cap_lt
    simp only [Slice.cap, Int64.toInt_zero] at hle
    omega
  · rw [gt_iff_lt, Int64.lt_iff_toInt_lt, Slice.toInt_len, hdata, hsum]
    omega

/-! ### The parser against the format -/

theorem bundleResult_lengths {buf : List UInt8} {vs : List ℕ} {rest : List UInt8}
    (h : HeaderOk buf) (ht : lengthTable buf = some (vs, rest)) :
    ((presentChannels buf).map UInt8.ofNat).length
      = ((vs ++ [rest.length - vs.sum]).splitLengths rest).length := by
  simpa using length_intLengths_eq h ht

/-- The indices of the result are the set bits of the mask. -/
theorem chIdx_bundleResult {buf : List UInt8} {vs : List ℕ} {rest : List UInt8}
    (h : HeaderOk buf) (ht : lengthTable buf = some (vs, rest)) :
    (bundleResult buf vs rest).chans.map (fun c => c.chIdx.toNat) = presentChannels buf := by
  have hidx : (bundleResult buf vs rest).chans.map ChannelPayload.chIdx
      = (presentChannels buf).map UInt8.ofNat := by
    rw [bundleResult, List.map_zipWith, ← List.map_uncurry_zip_eq_zipWith]
    exact List.map_fst_zip (bundleResult_lengths h ht).le
  calc (bundleResult buf vs rest).chans.map (fun c => c.chIdx.toNat)
      = ((presentChannels buf).map UInt8.ofNat).map UInt8.toNat := by
        rw [← hidx, List.map_map]
        rfl
    _ = (presentChannels buf).map id := by
        rw [List.map_map]
        refine List.map_congr_left fun c hc => ?_
        have := presentChannels_lt hc
        rw [Function.comp_apply, UInt8.toNat_ofNat']
        exact Nat.mod_eq_of_lt (by omega)
    _ = presentChannels buf := List.map_id _

/-- The payloads of the result, one after the other, are the bytes behind the
table. -/
theorem payload_bundleResult {buf : List UInt8} {vs : List ℕ} {rest : List UInt8}
    (h : HeaderOk buf) (ht : lengthTable buf = some (vs, rest)) :
    (bundleResult buf vs rest).chans.flatMap ChannelPayload.payload = rest := by
  have hpay : (bundleResult buf vs rest).chans.map ChannelPayload.payload
      = (vs ++ [rest.length - vs.sum]).splitLengths rest := by
    rw [bundleResult, List.map_zipWith, ← List.map_uncurry_zip_eq_zipWith]
    exact List.map_snd_zip (bundleResult_lengths h ht).ge
  rw [List.flatMap_def, hpay]
  apply List.flatten_splitLengths _ _
  rw [List.sum_append, List.sum_singleton]
  omega

/-- What `ParseBundle` owes on one packet: it never slices out of range, it
returns a result exactly on well-formed packets, and the result holds the set
bits of the mask and all the bytes behind the table. -/
structure ParsesExactly (buf : Slice UInt8) : Prop where
  inRange : parseBundle buf ≠ none
  accepts_iff : (∃ r, parseBundle buf = some r ∧ r.err = none) ↔ Accepts buf.data
  chIdx_eq : ∀ r, parseBundle buf = some r → r.err = none →
    r.chans.map (fun c => c.chIdx.toNat) = presentChannels buf.data
  payload_eq : ∀ r, parseBundle buf = some r → r.err = none →
    ∃ vs rest, lengthTable buf.data = some (vs, rest) ∧
      r.chans.flatMap ChannelPayload.payload = rest

/-- The lengths of the table add up to `2^63` or more, and to at most the
bytes left once the sum has wrapped to a 64-bit int. -/
def LengthSumWraps (buf : List UInt8) : Prop :=
  HeaderOk buf ∧ ∃ vs rest, lengthTable buf = some (vs, rest) ∧
    2 ^ 63 ≤ vs.sum ∧ (vs.sum : ℤ).bmod (2 ^ 64) ≤ rest.length

theorem parsesExactly_of_error {buf : Slice UInt8} {r : BundleReturn} {e : ProtoError}
    (hp : parseBundle buf = some r) (he : r.err = some e) (hno : ¬ Accepts buf.data) :
    ParsesExactly buf := by
  have herr : ∀ r', parseBundle buf = some r' → r'.err ≠ none := by
    intro r' hr'
    rw [hp] at hr'
    obtain rfl := Option.some.inj hr'
    simp [he]
  exact
    { inRange := by rw [hp]; simp
      accepts_iff := ⟨fun ⟨r', hr', hn⟩ => absurd hn (herr r' hr'), fun h => absurd h hno⟩
      chIdx_eq := fun r' hr' hn => absurd hn (herr r' hr')
      payload_eq := fun r' hr' hn => absurd hn (herr r' hr') }

theorem parsesExactly_of_fits {buf : Slice UInt8} {vs : List ℕ} {rest : List UInt8}
    (h : HeaderOk buf.data) (ht : lengthTable buf.data = some (vs, rest))
    (hfit : vs.sum ≤ rest.length) : ParsesExactly buf := by
  have hp := parseBundle_of_fits h ht hfit
  have hres : ∀ r, parseBundle buf = some r → r = bundleResult buf.data vs rest := by
    intro r hr
    rw [hp] at hr
    exact (Option.some.inj hr).symm
  exact
    { inRange := by rw [hp]; simp
      accepts_iff := ⟨fun _ => ⟨h, vs, rest, ht, hfit⟩, fun _ => ⟨_, hp, rfl⟩⟩
      chIdx_eq := fun r hr _ => by rw [hres r hr]; exact chIdx_bundleResult h ht
      payload_eq := fun r hr _ =>
        ⟨vs, rest, ht, by rw [hres r hr]; exact payload_bundleResult h ht⟩ }

/-- A packet whose lengths do not wrap is parsed or refused as it should be. -/
theorem parsesExactly_of_not_wraps {buf : Slice UInt8} (hno : ¬ LengthSumWraps buf.data) :
    ParsesExactly buf := by
  by_cases h : HeaderOk buf.data
  · rcases ht : lengthTable buf.data with - | ⟨vs, rest⟩
    · apply parsesExactly_of_error (parseBundle_of_no_table h ht) rfl
      rintro ⟨-, vs, rest, ht', -⟩
      rw [ht] at ht'
      cases ht'
    · by_cases hfit : vs.sum ≤ rest.length
      · exact parsesExactly_of_fits h ht hfit
      · -- too long: the wrapped sum must fail the check, or `hno` is false
        have hover : (rest.length : ℤ) < (vs.sum : ℤ).bmod (2 ^ 64) := by
          by_cases hbig : 2 ^ 63 ≤ vs.sum
          · by_contra hle
            exact hno ⟨h, vs, rest, ht, hbig, not_lt.mp hle⟩
          · rw [bmod_of_lt (by omega) (by omega)]
            omega
        apply parsesExactly_of_error (parseBundle_of_overrun h ht hover) rfl
        rintro ⟨-, vs', rest', ht', hfit'⟩
        rw [ht] at ht'
        obtain ⟨rfl, rfl⟩ := Prod.mk.inj (Option.some.inj ht')
        exact hfit hfit'
  · obtain ⟨r, e, hp, he⟩ := parseBundle_of_not_headerOk h
    exact parsesExactly_of_error hp he fun hacc => h hacc.1

/-- **The parser is exact unless the length sum wraps**: on every packet,
`ParseBundle` meets its contract if and only if the explicit lengths do not
add up to `2^63` or more with a wrapped sum that passes the bounds check. -/
theorem parseBundle_exact_iff (buf : Slice UInt8) :
    ParsesExactly buf ↔ ¬ LengthSumWraps buf.data := by
  constructor
  · rintro hex ⟨h, vs, rest, ht, hbig, hpass⟩
    exact hex.inRange (parseBundle_of_wraps h ht hpass hbig)
  · exact parsesExactly_of_not_wraps

/-- Two channels, and the one explicit length is `2^64 - 1`: as an `int` it is
`-1`, the sum passes, and `region[0:-1]` panics. -/
def wrappingPacket : Slice UInt8 where
  data := [0x10, 0, 0, 0, 0, 3, 0,
    0xff, 0xff, 0xff, 0xff, 0xff, 0xff, 0xff, 0xff, 0xff, 0x01]
  spare := []
  cap_lt := by decide

theorem wrappingPacket_not_exact : ¬ ParsesExactly wrappingPacket := by
  intro h
  exact h.inRange (by decide)

end AmbiRTC
