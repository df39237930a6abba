/-
AmbiRTC/BundleAgreement.lean

Where the server's `ParseBundle` and the browser's `parseBundle` read the same
packet, and where they do not.  The two share the header and the way payloads are
cut; they differ in the reader of the length table.  `binary.Uvarint` takes up to
ten bytes into 64 bits; `readUvarint` gives up after six bytes and works in 32
bits, so that it reads a number `v` as `clientLength v`.

Main results: `Client.readLengths_of_short` (what the browser makes of a table),
and `decodersAgree_iff`: the decoders agree on a packet if and only if its lengths
are plain and fit, or both refuse it; on `overlongPacket` they do not.
-/
import AmbiRTC.BundleParse
import AmbiRTC.ClientBundle

namespace AmbiRTC

open GoSlice Words

namespace Client

/-! ### readUvarint reads six groups into 32 bits -/

/-- What `readUvarint` makes of the number `v` when it takes at most six bytes:
the low 32 bits of the first five groups, with the sixth group `or`ed in at
shift 35, which is shift 3. -/
def clientLength (v : ℕ) : ℕ := v % 2 ^ 32 ||| v / 2 ^ 35 * 2 ^ 3

theorem clientLength_of_lt {v : ℕ} (h : v < 2 ^ 32) : clientLength v = v := by
  rw [clientLength, Nat.mod_eq_of_lt h, Nat.div_eq_of_lt (by omega), Nat.zero_mul, Nat.or_zero]

theorem clientLength_lt {v : ℕ} (h : v < 2 ^ 42) : clientLength v < 2 ^ 32 :=
  Nat.or_lt_two_pow (Nat.mod_lt _ (by norm_num)) (by omega)

/-- The accumulator after a byte among the first five. -/
theorem toNat_or_group {x : UInt32} {V n : ℕ} (b : UInt8) (hn : n ≤ 4) (hV : V < 2 ^ (7 * n))
    (hx : x.toNat = V % 2 ^ 32) :
    (x ||| b.toUInt32 <<< UInt32.ofNat (7 * n)).toNat = (V + 2 ^ (7 * n) * b.toNat) % 2 ^ 32 := by
  have hV32 : V < 2 ^ 32 := lt_of_lt_of_le hV (Nat.pow_le_pow_right (by decide) (by omega))
  rw [Nat.mod_eq_of_lt hV32] at hx
  rw [toNat_or_shiftLeft_32 (by rwa [hx]) (by omega), hx]

/-- The accumulator after a sixth byte: the shift count 35 is taken mod 32. -/
theorem toNat_or_sixth {x : UInt32} {V : ℕ} (b : UInt8) (hx : x.toNat = V % 2 ^ 32) :
    (x ||| b.toUInt32 <<< UInt32.ofNat 35).toNat = V % 2 ^ 32 ||| b.toNat * 2 ^ 3 := by
  have hb := b.toNat_lt
  rw [UInt32.toNat_or, hx, UInt32.toNat_shiftLeft, UInt8.toNat_toUInt32,
    show (UInt32.ofNat 35).toNat % 32 = 3 from rfl, Nat.shiftLeft_eq,
    Nat.mod_eq_of_lt (show b.toNat * 2 ^ 3 < 2 ^ 32 by omega)]

/-- The loop on a number of at most six bytes, with `n` groups already read. -/
theorem readUvarintLoop_of_decode {buf : List UInt8} {v k n V : ℕ} {x : UInt32}
    (hd : Leb128.decode buf = some (v, k)) (hn : n + k ≤ 6) (hV : V < 2 ^ (7 * n))
    (hx : x.toNat = V % 2 ^ 32) :
    readUvarintLoop buf x (7 * n) n
      = .ok (UInt32.ofNat (clientLength (V + 2 ^ (7 * n) * v)), n + k) := by
  induction buf generalizing v k n V x with
  | nil => cases hd
  | cons b rest ih =>
    by_cases hb : b.toNat < 128
    · rw [Leb128.decode_cons_last rest hb] at hd
      obtain ⟨rfl, rfl⟩ := Prod.mk.inj (Option.some.inj hd)
      have hgrp := group_lt hV hb
      have h42 : 2 ^ (7 * (n + 1)) ≤ 2 ^ 42 := Nat.pow_le_pow_right (by decide) (by omega)
      rw [readUvarintLoop, if_pos (byte_lt_128.mpr hb)]
      congr 2
      apply UInt32.toNat_inj.mp
      rw [UInt32.toNat_ofNat', Nat.mod_eq_of_lt (clientLength_lt (by omega)), clientLength]
      -- up to five groups lie below bit 35; the sixth wraps round to bit 3
      by_cases h4 : n ≤ 4
      · have h35 : 2 ^ (7 * (n + 1)) ≤ 2 ^ 35 := Nat.pow_le_pow_right (by decide) (by omega)
        rw [toNat_or_group b h4 hV hx, Nat.div_eq_of_lt (show _ < 2 ^ 35 by omega), Nat.zero_mul,
          Nat.or_zero]
      · obtain rfl : n = 5 := by omega
        rw [toNat_or_sixth b hx]
        have hlow : (V + 2 ^ (7 * 5) * b.toNat) % 2 ^ 32 = V % 2 ^ 32 := by omega
        have hhigh : (V + 2 ^ (7 * 5) * b.toNat) / 2 ^ 35 = b.toNat := by omega
        rw [hlow, hhigh]
    · obtain ⟨v', k', hr, rfl, rfl⟩ := Leb128.decode_cons_more_some hb hd
      have hk' := Leb128.decode_pos hr
      have hb256 := b.toNat_lt
      have hlow : (b &&& 0x7f).toNat = b.toNat - 128 := by
        rw [and_127]
        omega
      have hacc := toNat_or_group (b &&& 0x7f) (by omega) hV hx
      rw [hlow] at hacc
      rw [readUvarintLoop, if_neg (by rwa [byte_lt_128]), if_neg (by omega),
        show 7 * n + 7 = 7 * (n + 1) by ring,
        ih hr (by omega) (group_lt hV (by omega)) hacc, group_shift, Nat.add_assoc n 1 k',
        Nat.add_comm 1 k']

/-- The loop on anything longer, or never ended. -/
theorem readUvarintLoop_of_long {buf : List UInt8} {n s : ℕ} {x : UInt32} (hn : n ≤ 5)
    (hlong : ∀ v k, Leb128.decode buf = some (v, k) → 6 < n + k) :
    ∃ e, readUvarintLoop buf x s n = .error e := by
  induction buf generalizing n s x with
  | nil => exact ⟨_, rfl⟩
  | cons b rest ih =>
    by_cases hb : b.toNat < 128
    · have := hlong _ _ (Leb128.decode_cons_last rest hb)
      omega
    · rw [readUvarintLoop, if_neg (by rwa [byte_lt_128])]
      by_cases h5 : n + 1 > 5
      · exact ⟨_, if_pos h5⟩
      · rw [if_neg h5]
        refine ih (by omega) fun v' k' hr => ?_
        have := hlong _ _ (by rw [Leb128.decode_cons_more rest hb, hr]; rfl)
        simp only at this
        omega

theorem readUvarint_of_decode {buf : List UInt8} {off v k : ℕ}
    (hd : Leb128.decode (buf.drop off) = some (v, k)) (hk : k ≤ 6) :
    readUvarint buf off = .ok (UInt32.ofNat (clientLength v), k) := by
  have := readUvarintLoop_of_decode (n := 0) (V := 0) (x := 0) hd (by omega) (by simp) (by simp)
  simpa [readUvarint] using this

theorem readUvarint_of_long {buf : List UInt8} {off : ℕ}
    (hlong : ∀ v k, Leb128.decode (buf.drop off) = some (v, k) → 6 < k) :
    ∃ e, readUvarint buf off = .error e :=
  readUvarintLoop_of_long (by omega) fun v k hd => by simpa using hlong v k hd

/-! ### The length table in the browser -/

/-- Every entry in six bytes or less: the browser reads the table, each length
through `clientLength`. -/
theorem readLengths_of_short {buf : List UInt8} {n off sum : ℕ} {vs : List ℕ}
    {rest : List UInt8} (hoff : off ≤ buf.length)
    (ht : Leb128.table n (buf.drop off) = some (vs, rest))
    (hshort : ∀ k ∈ Leb128.widths n (buf.drop off), k ≤ 6) :
    ∃ off', readLengths buf n off sum
        = .ok (off', vs.map clientLength, sum + (vs.map clientLength).sum) ∧
      off' ≤ buf.length ∧ buf.drop off' = rest := by
  induction n generalizing off sum vs with
  | zero =>
    obtain ⟨rfl, rfl⟩ := Prod.mk.inj (Option.some.inj ht)
    exact ⟨off, rfl, hoff, rfl⟩
  | succ n ih =>
    obtain ⟨v, k, vs', hd64, ht', rfl⟩ := Leb128.table_succ_eq_some.mp ht
    obtain ⟨hd, -, -⟩ := Leb128.decode64_eq_some.mp hd64
    rw [Leb128.widths_succ hd] at hshort
    have hk6 := hshort k (by simp)
    have hk := Leb128.decode_le_length hd
    rw [List.length_drop] at hk
    rw [List.drop_drop] at ht' hshort
    have hv : v < 2 ^ 42 := by
      calc v < 128 ^ k := Leb128.decode_lt hd
        _ ≤ 128 ^ 6 := Nat.pow_le_pow_right (by decide) hk6
        _ = 2 ^ 42 := by norm_num
    have hw : (UInt32.ofNat (clientLength v)).toNat = clientLength v := by
      rw [UInt32.toNat_ofNat']
      exact Nat.mod_eq_of_lt (clientLength_lt hv)
    obtain ⟨off', hr, hoff', hrest⟩ := @ih (off + k) (sum + clientLength v) vs'
      (by omega) ht' fun w hw => hshort w (by simp [hw])
    refine ⟨off', ?_, hoff', hrest⟩
    rw [readLengths, readUvarint_of_decode hd hk6]
    simp only [bind, Except.bind, hw, hr, List.map_cons, List.sum_cons]
    rw [Nat.add_assoc]

/-- An entry in seven bytes or more, or a table that does not decode at all,
is refused by the browser. -/
theorem readLengths_of_bad {buf : List UInt8} {n off sum : ℕ}
    (hbad : Leb128.table n (buf.drop off) = none ∨
      ∃ k ∈ Leb128.widths n (buf.drop off), 6 < k) :
    ∃ e, readLengths buf n off sum = .error e := by
  induction n generalizing off sum with
  | zero =>
    rcases hbad with h | ⟨k, hk, -⟩
    · cases h
    · cases hk
  | succ n ih =>
    by_cases hlong : ∀ v k, Leb128.decode (buf.drop off) = some (v, k) → 6 < k
    · obtain ⟨e, he⟩ := readUvarint_of_long hlong
      exact ⟨e, by rw [readLengths, he]; rfl⟩
    · -- a short entry is read by both, so the trouble is in what follows
      push Not at hlong
      obtain ⟨v, k, hd, hk6⟩ := hlong
      have hv : v < 2 ^ 64 := by
        calc v < 128 ^ k := Leb128.decode_lt hd
          _ ≤ 128 ^ 6 := Nat.pow_le_pow_right (by decide) hk6
          _ ≤ 2 ^ 64 := by norm_num
      have hd64 : Leb128.decode64 (buf.drop off) = some (v, k) :=
        Leb128.decode64_eq_some.mpr ⟨hd, by omega, hv⟩
      have hbad' : Leb128.table n (buf.drop (off + k)) = none ∨
          ∃ k' ∈ Leb128.widths n (buf.drop (off + k)), 6 < k' := by
        rw [Leb128.widths_succ hd, ← List.drop_drop] at *
        rcases hbad with h | ⟨k', hk', h6⟩
        · left
          simpa [Leb128.table, hd64] using h
        · rcases List.mem_cons.mp hk' with rfl | hk'
          · omega
          · exact Or.inr ⟨k', hk', h6⟩
      obtain ⟨e, he⟩ := @ih _ (sum + (UInt32.ofNat (clientLength v)).toNat) hbad'
      refine ⟨e, ?_⟩
      rw [readLengths, readUvarint_of_decode hd hk6]
      simp only [bind, Except.bind, he]

/-! ### parseBundle of the browser, outcome by outcome -/

theorem idxs_mask (buf : List UInt8) :
    ((List.range channels).filter fun c =>
      (leUInt16 (buf.getD 5 0) (buf.getD 6 0)).toUInt32 &&& ((1 : UInt32) <<< UInt32.ofNat c)
        ≠ 0).map UInt8.ofNat = (presentChannels buf).map UInt8.ofNat := by
  congr 1
  refine List.filter_congr fun c hc => ?_
  rw [Bool.eq_iff_iff, decide_eq_true_iff, and_bit_ne_zero_32 _ (List.mem_range.mp hc),
    toNat_leUInt16_mask]

theorem cutPayloads_eq (buf : List UInt8) (idxs : List UInt8) (lengths : List ℕ) (p : ℕ) :
    cutPayloads buf idxs lengths p
      = List.zipWith ChannelPayload.mk idxs (lengths.splitLengths (buf.drop p)) := by
  induction lengths generalizing idxs p with
  | nil => cases idxs <;> rfl
  | cons l lengths ih =>
    cases idxs with
    | nil => rfl
    | cons c idxs =>
      rw [cutPayloads, ih, List.splitLengths_cons, List.zipWith_cons_cons, List.drop_drop]

theorem parseBundle_of_not_headerOk {buf : List UInt8} (h : ¬ HeaderOk buf) :
    ∃ e, parseBundle buf = .error e := by
  by_cases hlen : buf.length < 7
  · exact ⟨.short, by simp only [parseBundle]; rw [if_pos hlen]⟩
  by_cases hver : buf.getD 0 0 >>> 4 = bundleVersion
  · have hmask : chMask buf = 0 := by
      by_contra hne
      exact h ⟨by omega, (version_iff _).mp hver, hne⟩
    have hk : (presentChannels buf).length = 0 := by
      rw [presentChannels, hmask]
      rfl
    refine ⟨.empty, ?_⟩
    simp only [parseBundle]
    rw [if_neg hlen, if_neg (not_not_intro hver), idxs_mask, List.length_map, if_pos hk]
  · exact ⟨.version, by simp only [parseBundle]; rw [if_neg hlen, if_pos hver]⟩

/-- Past the header the browser's parser is its table loop and what follows. -/
theorem parseBundle_of_headerOk {buf : List UInt8} (h : HeaderOk buf) :
    parseBundle buf = (do
      let t ← readLengths buf ((presentChannels buf).length - 1) 7 0
      if t.2.2 > buf.length - t.1 then .error .lengthOverrun
      else
        .ok ⟨(bundleResult buf [] []).frameTs,
          cutPayloads buf ((presentChannels buf).map UInt8.ofNat)
            (t.2.1 ++ [buf.length - t.1 - t.2.2]) t.1,
          (bundleResult buf [] []).isRec⟩) := by
  have hlen := h.length
  have hpos := length_presentChannels_pos h.mask
  simp only [parseBundle]
  rw [if_neg (by omega), if_neg (not_not_intro ((version_iff _).mpr h.version)), idxs_mask,
    List.length_map, if_neg (by omega)]
  rfl

theorem parseBundle_of_bad {buf : List UInt8} (h : HeaderOk buf)
    (hbad : lengthTable buf = none ∨
      ∃ k ∈ Leb128.widths ((presentChannels buf).length - 1) (buf.drop 7), 6 < k) :
    ∃ e, parseBundle buf = .error e := by
  obtain ⟨e, he⟩ := @readLengths_of_bad buf _ 7 0 hbad
  exact ⟨e, by rw [parseBundle_of_headerOk h, he]; rfl⟩

/-- A table the browser reads: the lengths it sees are compared and cut. -/
theorem parseBundle_of_short {buf : List UInt8} {vs : List ℕ} {rest : List UInt8}
    (h : HeaderOk buf) (ht : lengthTable buf = some (vs, rest))
    (hshort : ∀ k ∈ Leb128.widths ((presentChannels buf).length - 1) (buf.drop 7), k ≤ 6) :
    parseBundle buf =
      if (vs.map clientLength).sum > rest.length then .error .lengthOverrun
      else .ok ⟨(bundleResult buf [] []).frameTs,
        (bundleResult buf (vs.map clientLength) rest).chans, (bundleResult buf [] []).isRec⟩ := by
  obtain ⟨off', hr, hoff', hrest⟩ := @readLengths_of_short buf _ 7 0 vs rest h.length ht hshort
  have hlen : buf.length - off' = rest.length := by rw [← hrest, List.length_drop]
  rw [parseBundle_of_headerOk h, hr]
  simp only [bind, Except.bind, Nat.zero_add, hlen, cutPayloads_eq, hrest]
  rfl

end Client

/-! ### Agreement -/

/-- The two decoders agree on a packet: both refuse it, or both return the
same timestamp, channels and recording flag. -/
def DecodersAgree (buf : Slice UInt8) : Prop :=
  ((∃ r e, parseBundle buf = some r ∧ r.err = some e) ∧
    ∃ e, Client.parseBundle buf.data = .error e) ∨
  ∃ frameTs chans isRec, parseBundle buf = some ⟨frameTs, chans, isRec, none⟩ ∧
    Client.parseBundle buf.data = .ok ⟨frameTs, chans, isRec⟩

/-- The lengths of a table in a form both readers take alike: at most six
bytes each and below `2^32`. -/
def PlainLengths (buf : List UInt8) (vs : List ℕ) : Prop :=
  (∀ k ∈ Leb128.widths ((presentChannels buf).length - 1) (buf.drop 7), k ≤ 6) ∧
    ∀ v ∈ vs, v < 2 ^ 32

/-- Lengths the browser refuses: one takes seven bytes or more, or the ones it
reads add up to more than the bytes left. -/
def ClientOverrun (buf : List UInt8) (vs : List ℕ) (rest : List UInt8) : Prop :=
  (∃ k ∈ Leb128.widths ((presentChannels buf).length - 1) (buf.drop 7), 6 < k) ∨
    rest.length < (vs.map Client.clientLength).sum

/-- The packets on which the decoders agree.  Where the header is good and the
table decodes, either the lengths fit and are plain, or they do not fit, the
server does not run into its wrapped sum and the browser refuses them too. -/
def SameReading (buf : List UInt8) : Prop :=
  HeaderOk buf → ∀ vs rest, lengthTable buf = some (vs, rest) →
    (vs.sum ≤ rest.length ∧ PlainLengths buf vs) ∨
    (rest.length < vs.sum ∧ ¬ LengthSumWraps buf ∧ ClientOverrun buf vs rest)

theorem Client.parseBundle_error_iff {buf : List UInt8} {vs : List ℕ} {rest : List UInt8}
    (h : HeaderOk buf) (ht : lengthTable buf = some (vs, rest)) :
    (∃ e, Client.parseBundle buf = .error e) ↔ ClientOverrun buf vs rest := by
  by_cases hshort : ∀ k ∈ Leb128.widths ((presentChannels buf).length - 1) (buf.drop 7), k ≤ 6
  · rw [Client.parseBundle_of_short h ht hshort]
    constructor
    · rintro ⟨e, he⟩
      split at he
      · exact Or.inr ‹_›
      · cases he
    · rintro (⟨k, hk, h6⟩ | hover)
      · exact absurd (hshort k hk) (by omega)
      · exact ⟨_, if_pos hover⟩
  · push Not at hshort
    exact iff_of_true (Client.parseBundle_of_bad h (Or.inr hshort)) (Or.inl hshort)

/-- The explicit lengths can be read off the channels of a result. -/
theorem lengths_of_chans {buf : List UInt8} {vs ws : List ℕ} {rest : List UInt8}
    (h : HeaderOk buf) (ht : lengthTable buf = some (vs, rest)) (hlen : ws.length = vs.length)
    (hfit : vs.sum ≤ rest.length) (hfit' : ws.sum ≤ rest.length)
    (heq : (bundleResult buf vs rest).chans = (bundleResult buf ws rest).chans) : vs = ws := by
  have hsplit : ∀ us : List ℕ, us.length = vs.length → us.sum ≤ rest.length →
      (bundleResult buf us rest).chans.map (fun c => c.payload.length)
        = us ++ [rest.length - us.sum] := by
    intro us hus hsum
    have hzip : (bundleResult buf us rest).chans.map ChannelPayload.payload
        = (us ++ [rest.length - us.sum]).splitLengths rest := by
      rw [bundleResult, List.map_zipWith, ← List.map_uncurry_zip_eq_zipWith]
      apply List.map_snd_zip
      have := length_intLengths_eq h ht
      simp only [List.length_splitLengths, List.length_append, List.length_map,
        List.length_singleton]
      omega
    calc (bundleResult buf us rest).chans.map (fun c => c.payload.length)
        = ((bundleResult buf us rest).chans.map ChannelPayload.payload).map List.length := by
          rw [List.map_map]
          rfl
      _ = us ++ [rest.length - us.sum] := by
          rw [hzip, List.map_splitLengths_length]
          rw [List.sum_append, List.sum_singleton]
          omega
  have happ := hsplit vs rfl hfit
  rw [heq, hsplit ws hlen hfit'] at happ
  exact (List.append_inj_left happ hlen).symm

/-- Both accept exactly where the lengths fit and are plain. -/
theorem agree_of_fits_iff {buf : Slice UInt8} {vs : List ℕ} {rest : List UInt8}
    (h : HeaderOk buf.data) (ht : lengthTable buf.data = some (vs, rest))
    (hfit : vs.sum ≤ rest.length) : DecodersAgree buf ↔ PlainLengths buf.data vs := by
  have hgo := parseBundle_of_fits h ht hfit
  constructor
  · rintro (⟨⟨r, e, hr, he⟩, -⟩ | ⟨frameTs, chans, isRec, hr, hjs⟩)
    · rw [hgo] at hr
      obtain rfl := Option.some.inj hr
      cases he
    · rw [hgo] at hr
      have hno : ¬ ClientOverrun buf.data vs rest := by
        rw [← Client.parseBundle_error_iff h ht, hjs]
        rintro ⟨e, he⟩
        cases he
      obtain ⟨hshort, hfit'⟩ := not_or.mp hno
      push Not at hshort
      rw [not_lt] at hfit'
      rw [Client.parseBundle_of_short h ht hshort, if_neg (not_lt.mpr hfit')] at hjs
      have hchans : (bundleResult buf.data vs rest).chans
          = (bundleResult buf.data (vs.map Client.clientLength) rest).chans :=
        (congrArg BundleReturn.chans (Option.some.inj hr)).trans
          (congrArg Client.ParsedBundle.chans (Except.ok.inj hjs)).symm
      -- both cut alike, so the browser read every length as it is
      have heq := lengths_of_chans h ht (by simp) hfit hfit' hchans
      have hlt := Leb128.table_lt_of_widths ht hshort
      refine ⟨hshort, fun v hv => ?_⟩
      rw [heq] at hv
      obtain ⟨u, hu, rfl⟩ := List.mem_map.mp hv
      exact Client.clientLength_lt (lt_of_lt_of_eq (hlt u hu) (by norm_num))
  · rintro ⟨hshort, hlt⟩
    have hsame : vs.map Client.clientLength = vs := by
      rw [List.map_congr_left fun v hv => Client.clientLength_of_lt (hlt v hv), List.map_id'']
      exact fun _ => rfl
    refine Or.inr ⟨_, _, _, hgo, ?_⟩
    rw [Client.parseBundle_of_short h ht hshort, hsame, if_neg (not_lt.mpr hfit)]
    rfl

/-- Lengths that do not fit: the server must not panic, the browser must
refuse. -/
theorem agree_of_overrun_iff {buf : Slice UInt8} {vs : List ℕ} {rest : List UInt8}
    (h : HeaderOk buf.data) (ht : lengthTable buf.data = some (vs, rest))
    (hover : rest.length < vs.sum) :
    DecodersAgree buf ↔ ¬ LengthSumWraps buf.data ∧ ClientOverrun buf.data vs rest := by
  have hno : ¬ Accepts buf.data := by
    rintro ⟨-, vs', rest', ht', hfit⟩
    rw [ht] at ht'
    obtain ⟨rfl, rfl⟩ := Prod.mk.inj (Option.some.inj ht')
    omega
  -- so the two can only agree by refusing
  constructor
  · rintro (⟨⟨r, e, hr, -⟩, hjs⟩ | ⟨frameTs, chans, isRec, hr, hjs⟩)
    · refine ⟨?_, (Client.parseBundle_error_iff h ht).mp hjs⟩
      rintro ⟨-, vs', rest', ht', hbig, hpass⟩
      rw [parseBundle_of_wraps h ht' hpass hbig] at hr
      cases hr
    · -- the server does not accept this packet
      exfalso
      by_cases hwraps : LengthSumWraps buf.data
      · obtain ⟨-, vs', rest', ht', hbig, hpass⟩ := hwraps
        rw [parseBundle_of_wraps h ht' hpass hbig] at hr
        cases hr
      · exact hno ((parsesExactly_of_not_wraps hwraps).accepts_iff.mp ⟨_, hr, rfl⟩)
  · rintro ⟨hwraps, hclient⟩
    have hex := parsesExactly_of_not_wraps hwraps
    obtain ⟨r, hr⟩ := Option.ne_none_iff_exists'.mp hex.inRange
    refine Or.inl ⟨⟨r, ?_⟩, (Client.parseBundle_error_iff h ht).mpr hclient⟩
    rcases he : r.err with - | e
    · exact absurd (hex.accepts_iff.mp ⟨r, hr, he⟩) hno
    · exact ⟨e, hr, rfl⟩

/-- **Agreement of the decoders**: the server and the browser read a packet
alike if and only if it satisfies `SameReading`. -/
theorem decodersAgree_iff (buf : Slice UInt8) : DecodersAgree buf ↔ SameReading buf.data := by
  by_cases h : HeaderOk buf.data
  · rcases ht : lengthTable buf.data with - | ⟨vs, rest⟩
    · refine iff_of_true ?_ fun _ vs rest ht' => ?_
      · exact Or.inl ⟨⟨_, _, parseBundle_of_no_table h ht, rfl⟩,
          Client.parseBundle_of_bad h (Or.inl ht)⟩
      · rw [ht] at ht'
        cases ht'
    · have hsame : SameReading buf.data ↔
          (vs.sum ≤ rest.length ∧ PlainLengths buf.data vs) ∨
          (rest.length < vs.sum ∧ ¬ LengthSumWraps buf.data ∧ ClientOverrun buf.data vs rest) := by
        constructor
        · intro hs
          exact hs h vs rest ht
        · intro hs _ vs' rest' ht'
          rw [ht] at ht'
          obtain ⟨rfl, rfl⟩ := Prod.mk.inj (Option.some.inj ht')
          exact hs
      rw [hsame]
      by_cases hfit : vs.sum ≤ rest.length
      · rw [agree_of_fits_iff h ht hfit]
        simp [hfit, not_lt.mpr hfit]
      · rw [agree_of_overrun_iff h ht (not_le.mp hfit)]
        simp [hfit, not_le.mp hfit]
  · refine iff_of_true ?_ fun hh => absurd hh h
    obtain ⟨r, e, hr, he⟩ := parseBundle_of_not_headerOk h
    exact Or.inl ⟨⟨r, e, hr, he⟩, Client.parseBundle_of_not_headerOk h⟩

/-- Two channels, the length 1 written in seven bytes: `Uvarint` reads it,
`readUvarint` gives up after six. -/
def overlongPacket : Slice UInt8 where
  data := [0x10, 0, 0, 0, 0, 3, 0, 0x81, 0x80, 0x80, 0x80, 0x80, 0x80, 0x00, 0xaa, 0xbb]
  spare := []
  cap_lt := by decide

theorem overlongPacket_not_agree : ¬ DecodersAgree overlongPacket := by
  have hgo : parseBundle overlongPacket
      = some ⟨0, [⟨0, [0xaa]⟩, ⟨1, [0xbb]⟩], false, none⟩ := by decide
  have hjs : Client.parseBundle overlongPacket.data = .error .varintTooLong := by decide
  rintro (⟨⟨r, e, hr, he⟩, -⟩ | ⟨frameTs, chans, isRec, -, hok⟩)
  · rw [hgo] at hr
    obtain rfl := Option.some.inj hr
    cases he
  · rw [hjs] at hok
    cases hok

/-- The other way round: a length of `2^32 + 1` overruns the packet for the
server and is 1 for the browser. -/
example :
    parseBundle ⟨[0x10, 0, 0, 0, 0, 3, 0, 0x81, 0x80, 0x80, 0x80, 0x10, 0xaa], [], by decide⟩
      = some (.fail .bundleLength) ∧
    Client.parseBundle [0x10, 0, 0, 0, 0, 3, 0, 0x81, 0x80, 0x80, 0x80, 0x10, 0xaa]
      = .ok ⟨0, [⟨0, [0xaa]⟩, ⟨1, []⟩], false⟩ := by decide

end AmbiRTC
