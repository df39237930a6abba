/-
AmbiRTC/Words.lean

Fixed-width machine words read as numbers: little-endian words as the sum of
their bytes, `or` of disjoint parts as a sum, and single-bit tests of a mask
as `Nat.testBit`.

Each lemma takes a word expression as a program writes it (shifts, `|||`,
`&&&`) to a statement about natural numbers, where `omega` finishes.
-/
import Mathlib.Data.Nat.Bitwise
import Mathlib.Data.List.Basic

namespace Words

/-! ### Disjoint `or` -/

/-- `or` of a number below `2^s` and a multiple of `2^s` is their sum. -/
theorem or_shift_eq_add {x : ℕ} (y s : ℕ) (hx : x < 2 ^ s) : x ||| y * 2 ^ s = x + 2 ^ s * y := by
  rw [Nat.or_comm, Nat.mul_comm, ← Nat.two_pow_add_eq_or_of_lt hx, Nat.add_comm]

/-- A byte `or`ed in above the `s` bits a 64-bit word already holds. -/
theorem toNat_or_shiftLeft_64 {x : UInt64} {b : UInt8} {s : ℕ} (hx : x.toNat < 2 ^ s)
    (hs : s < 64) (hfit : b.toNat * 2 ^ s < 2 ^ 64) :
    (x ||| b.toUInt64 <<< UInt64.ofNat s).toNat = x.toNat + 2 ^ s * b.toNat := by
  have hs' : (UInt64.ofNat s).toNat = s := by
    rw [UInt64.toNat_ofNat']
    omega
  rw [UInt64.toNat_or, UInt64.toNat_shiftLeft, hs', UInt8.toNat_toUInt64, Nat.mod_eq_of_lt hs,
    Nat.shiftLeft_eq, Nat.mod_eq_of_lt hfit, or_shift_eq_add _ s hx]

/-- A byte `or`ed in above the `s` bits a 32-bit word already holds: what does
not fit is lost. -/
theorem toNat_or_shiftLeft_32 {x : UInt32} {b : UInt8} {s : ℕ} (hx : x.toNat < 2 ^ s)
    (hs : s < 32) :
    (x ||| b.toUInt32 <<< UInt32.ofNat s).toNat = (x.toNat + 2 ^ s * b.toNat) % 2 ^ 32 := by
  have hs' : (UInt32.ofNat s).toNat = s := by
    rw [UInt32.toNat_ofNat']
    omega
  have hpow : 2 ^ 32 = 2 ^ s * 2 ^ (32 - s) := by
    rw [← Nat.pow_add]
    congr 1
    omega
  have hmod : b.toNat * 2 ^ s % 2 ^ 32 = b.toNat % 2 ^ (32 - s) * 2 ^ s := by
    rw [hpow, Nat.mul_comm (2 ^ s), Nat.mul_mod_mul_right]
  rw [UInt32.toNat_or, UInt32.toNat_shiftLeft, hs', UInt8.toNat_toUInt32, Nat.mod_eq_of_lt hs,
    Nat.shiftLeft_eq, hmod, or_shift_eq_add _ s hx, hpow, Nat.mod_mul,
    Nat.add_mul_mod_self_left, Nat.mod_eq_of_lt hx, Nat.add_mul_div_left _ _ (Nat.two_pow_pos s),
    Nat.div_eq_of_lt hx, Nat.zero_add]

/-- Seven low bits of a byte. -/
theorem and_127 (b : UInt8) : (b &&& 0x7f).toNat = b.toNat % 128 := by
  rw [UInt8.toNat_and]
  exact Nat.and_two_pow_sub_one_eq_mod b.toNat 7

/-- A byte with its high bit set. -/
theorem or_128 (b : UInt8) : (b ||| 0x80).toNat = b.toNat % 128 + 128 := by
  have hb := b.toNat_lt
  have hsplit : b.toNat % 128 + 2 ^ 7 * (b.toNat / 128) = b.toNat := by omega
  have hhigh : b.toNat / 128 * 2 ^ 7 ||| 1 * 2 ^ 7 = 1 * 2 ^ 7 := by
    have hq : b.toNat / 128 = 0 ∨ b.toNat / 128 = 1 := by omega
    rcases hq with hq | hq <;> rw [hq] <;> rfl
  calc (b ||| 0x80).toNat
      = (b.toNat % 128 + 2 ^ 7 * (b.toNat / 128)) ||| 1 * 2 ^ 7 := by
        rw [UInt8.toNat_or, hsplit]
        rfl
    _ = b.toNat % 128 ||| 1 * 2 ^ 7 := by
        rw [← or_shift_eq_add _ 7 (by omega), Nat.or_assoc, hhigh]
    _ = b.toNat % 128 + 128 := or_shift_eq_add _ 7 (by omega)

/-- The high nibble of a byte. -/
theorem shiftRight_4 (b : UInt8) : (b >>> 4).toNat = b.toNat / 16 := by
  rw [UInt8.toNat_shiftRight]
  exact Nat.shiftRight_eq_div_pow b.toNat 4

/-! ### Little-endian words -/

/-- `binary.LittleEndian.Uint32` on four bytes. -/
def leUInt32 (b₀ b₁ b₂ b₃ : UInt8) : UInt32 :=
  b₀.toUInt32 ||| b₁.toUInt32 <<< 8 ||| b₂.toUInt32 <<< 16 ||| b₃.toUInt32 <<< 24

/-- `binary.LittleEndian.PutUint32`. -/
def putLeUInt32 (v : UInt32) : List UInt8 :=
  [v.toUInt8, (v >>> 8).toUInt8, (v >>> 16).toUInt8, (v >>> 24).toUInt8]

/-- `binary.LittleEndian.Uint16` on two bytes. -/
def leUInt16 (b₀ b₁ : UInt8) : UInt16 := b₀.toUInt16 ||| b₁.toUInt16 <<< 8

/-- `binary.LittleEndian.PutUint16`. -/
def putLeUInt16 (v : UInt16) : List UInt8 := [v.toUInt8, (v >>> 8).toUInt8]

theorem toNat_leUInt32 (b₀ b₁ b₂ b₃ : UInt8) :
    (leUInt32 b₀ b₁ b₂ b₃).toNat
      = b₀.toNat + 2 ^ 8 * b₁.toNat + 2 ^ 16 * b₂.toNat + 2 ^ 24 * b₃.toNat := by
  have h₀ := b₀.toNat_lt
  have h₁ := b₁.toNat_lt
  have h₂ := b₂.toNat_lt
  have h₃ := b₃.toNat_lt
  have shifted : ∀ (b : UInt8) (s : ℕ), s ≤ 24 → (b.toUInt32 <<< (UInt32.ofNat s)).toNat
      = b.toNat * 2 ^ s := by
    intro b s hs
    have hb := b.toNat_lt
    have hpow : 2 ^ s ≤ 2 ^ 24 := Nat.pow_le_pow_right (by decide) hs
    have hs' : (UInt32.ofNat s).toNat = s := by
      rw [UInt32.toNat_ofNat']
      omega
    rw [UInt32.toNat_shiftLeft, hs', UInt8.toNat_toUInt32, Nat.mod_eq_of_lt (by omega : s < 32),
      Nat.shiftLeft_eq]
    apply Nat.mod_eq_of_lt
    calc b.toNat * 2 ^ s ≤ b.toNat * 2 ^ 24 := Nat.mul_le_mul_left _ hpow
      _ < 2 ^ 32 := by omega
  have e₁ := shifted b₁ 8 (by decide)
  have e₂ := shifted b₂ 16 (by decide)
  have e₃ := shifted b₃ 24 (by decide)
  simp only [UInt32.reduceOfNat] at e₁ e₂ e₃
  rw [leUInt32, UInt32.toNat_or, UInt32.toNat_or, UInt32.toNat_or, e₁, e₂, e₃,
    UInt8.toNat_toUInt32, or_shift_eq_add _ 8 (by omega), or_shift_eq_add _ 16 (by omega),
    or_shift_eq_add _ 24 (by omega)]

theorem toNat_leUInt16 (b₀ b₁ : UInt8) :
    (leUInt16 b₀ b₁).toNat = b₀.toNat + 2 ^ 8 * b₁.toNat := by
  have h₀ := b₀.toNat_lt
  have h₁ := b₁.toNat_lt
  have e₁ : (b₁.toUInt16 <<< 8).toNat = b₁.toNat * 2 ^ 8 := by
    rw [UInt16.toNat_shiftLeft, UInt8.toNat_toUInt16]
    simp only [UInt16.reduceToNat, Nat.reduceMod, Nat.shiftLeft_eq]
    exact Nat.mod_eq_of_lt (by omega)
  rw [leUInt16, UInt16.toNat_or, e₁, UInt8.toNat_toUInt16, or_shift_eq_add _ 8 (by omega)]

theorem leUInt32_put (v : UInt32) :
    leUInt32 v.toUInt8 (v >>> 8).toUInt8 (v >>> 16).toUInt8 (v >>> 24).toUInt8 = v := by
  have hv := v.toNat_lt
  apply UInt32.toNat_inj.mp
  rw [toNat_leUInt32]
  simp only [UInt32.toNat_toUInt8, UInt32.toNat_shiftRight, UInt32.reduceToNat, Nat.reduceMod,
    Nat.shiftRight_eq_div_pow]
  omega

theorem leUInt16_put (v : UInt16) : leUInt16 v.toUInt8 (v >>> 8).toUInt8 = v := by
  have hv := v.toNat_lt
  apply UInt16.toNat_inj.mp
  rw [toNat_leUInt16]
  simp only [UInt16.toNat_toUInt8, UInt16.toNat_shiftRight, UInt16.reduceToNat, Nat.reduceMod,
    Nat.shiftRight_eq_div_pow]
  omega

theorem putLeUInt32_get (b₀ b₁ b₂ b₃ : UInt8) :
    putLeUInt32 (leUInt32 b₀ b₁ b₂ b₃) = [b₀, b₁, b₂, b₃] := by
  have h₀ := b₀.toNat_lt
  have h₁ := b₁.toNat_lt
  have h₂ := b₂.toNat_lt
  have h₃ := b₃.toNat_lt
  simp only [putLeUInt32, List.cons.injEq, and_true]
  refine ⟨?_, ?_, ?_, ?_⟩ <;> apply UInt8.toNat_inj.mp <;>
    simp only [UInt32.toNat_toUInt8, UInt32.toNat_shiftRight, UInt32.reduceToNat, Nat.reduceMod,
      Nat.shiftRight_eq_div_pow, toNat_leUInt32] <;>
    omega

theorem putLeUInt16_get (b₀ b₁ : UInt8) : putLeUInt16 (leUInt16 b₀ b₁) = [b₀, b₁] := by
  have h₀ := b₀.toNat_lt
  have h₁ := b₁.toNat_lt
  simp only [putLeUInt16, List.cons.injEq, and_true]
  refine ⟨?_, ?_⟩ <;> apply UInt8.toNat_inj.mp <;>
    simp only [UInt16.toNat_toUInt8, UInt16.toNat_shiftRight, UInt16.reduceToNat, Nat.reduceMod,
      Nat.shiftRight_eq_div_pow, toNat_leUInt16] <;>
    omega

/-! ### Bits of a mask -/

/-- The positions of the bits of `m` that are set, below `n`, ascending. -/
def setBits (n m : ℕ) : List ℕ := (List.range n).filter fun c => m.testBit c

theorem mem_setBits {n m c : ℕ} : c ∈ setBits n m ↔ c < n ∧ m.testBit c = true := by
  simp [setBits]

theorem setBits_pairwise (n m : ℕ) : (setBits n m).Pairwise (· < ·) :=
  List.pairwise_lt_range.filter _

theorem setBits_eq_nil {n m : ℕ} (hm : m < 2 ^ n) : setBits n m = [] ↔ m = 0 := by
  constructor
  · intro h
    apply Nat.eq_of_testBit_eq
    intro i
    rw [Nat.zero_testBit]
    by_contra hi
    have hbit : m.testBit i = true := by simpa using hi
    have hin : i < n := by
      by_contra hge
      rw [Nat.testBit_lt_two_pow (lt_of_lt_of_le hm (Nat.pow_le_pow_right (by decide)
        (Nat.le_of_not_lt hge)))] at hbit
      cases hbit
    have := mem_setBits.mpr ⟨hin, hbit⟩
    rw [h] at this
    cases this
  · rintro rfl
    simp [setBits]

theorem and_two_pow_ne_zero {m c : ℕ} : m &&& 2 ^ c ≠ 0 ↔ m.testBit c = true := by
  rw [Nat.and_two_pow]
  cases m.testBit c <;> simp

theorem toNat_one_shiftLeft_16 {c : ℕ} (hc : c < 16) :
    ((1 : UInt16) <<< UInt16.ofNat c).toNat = 2 ^ c := by
  have hpow : 2 ^ c < 2 ^ 16 := Nat.pow_lt_pow_right (by decide) hc
  have hc' : (UInt16.ofNat c).toNat = c := by
    rw [UInt16.toNat_ofNat']
    omega
  rw [UInt16.toNat_shiftLeft, hc', Nat.mod_eq_of_lt hc]
  simp only [UInt16.toNat_one, Nat.shiftLeft_eq, Nat.one_mul]
  exact Nat.mod_eq_of_lt hpow

/-- `mask & (1 << c) != 0` on 16 bits. -/
theorem and_bit_ne_zero_16 (mask : UInt16) {c : ℕ} (hc : c < 16) :
    mask &&& ((1 : UInt16) <<< UInt16.ofNat c) ≠ 0 ↔ mask.toNat.testBit c = true := by
  rw [← and_two_pow_ne_zero, ← toNat_one_shiftLeft_16 hc, ← UInt16.toNat_and, ne_eq, ne_eq,
    ← UInt16.toNat_inj, UInt16.toNat_zero]

theorem toNat_one_shiftLeft_32 {c : ℕ} (hc : c < 16) :
    ((1 : UInt32) <<< UInt32.ofNat c).toNat = 2 ^ c := by
  have hpow : 2 ^ c < 2 ^ 16 := Nat.pow_lt_pow_right (by decide) hc
  have hc' : (UInt32.ofNat c).toNat = c := by
    rw [UInt32.toNat_ofNat']
    omega
  rw [UInt32.toNat_shiftLeft, hc', Nat.mod_eq_of_lt (by omega : c < 32)]
  simp only [UInt32.toNat_one, Nat.shiftLeft_eq, Nat.one_mul]
  exact Nat.mod_eq_of_lt (by omega)

/-- `mask & (1 << c)` on 32 bits, for a mask of 16. -/
theorem and_bit_ne_zero_32 (mask : UInt16) {c : ℕ} (hc : c < 16) :
    mask.toUInt32 &&& ((1 : UInt32) <<< UInt32.ofNat c) ≠ 0 ↔ mask.toNat.testBit c = true := by
  rw [← and_two_pow_ne_zero, ← toNat_one_shiftLeft_32 hc, ← UInt16.toNat_toUInt32,
    ← UInt32.toNat_and, ne_eq, ne_eq, ← UInt32.toNat_inj, UInt32.toNat_zero]

/-- `mask |= 1 << c` on 16 bits. -/
theorem toNat_or_bit_16 (mask : UInt16) {c : ℕ} (hc : c < 16) :
    (mask ||| ((1 : UInt16) <<< UInt16.ofNat c)).toNat = mask.toNat ||| 2 ^ c := by
  rw [UInt16.toNat_or, toNat_one_shiftLeft_16 hc]

/-! ### Little-endian numbers of any width -/

/-- The `w` little-endian bytes of a number that fits. -/
def toBytes : ℕ → ℕ → List UInt8
  | 0, _ => []
  | w + 1, n => UInt8.ofNat n :: toBytes w (n / 256)

/-- The number in little-endian bytes. -/
def ofBytes : List UInt8 → ℕ
  | [] => 0
  | b :: bs => b.toNat + 256 * ofBytes bs

theorem length_toBytes (w n : ℕ) : (toBytes w n).length = w := by
  induction w generalizing n with
  | zero => rfl
  | succ w ih => rw [toBytes, List.length_cons, ih]

theorem ofBytes_toBytes {w n : ℕ} (h : n < 256 ^ w) : ofBytes (toBytes w n) = n := by
  induction w generalizing n with
  | zero =>
    rw [Nat.pow_zero, Nat.lt_one_iff] at h
    rw [h]
    rfl
  | succ w ih =>
    have hrest : n / 256 < 256 ^ w := by
      rw [Nat.div_lt_iff_lt_mul (by decide)]
      exact h
    have hbyte : (UInt8.ofNat n).toNat = n % 256 := UInt8.toNat_ofNat'
    rw [toBytes, ofBytes, ih hrest, hbyte]
    exact Nat.mod_add_div n 256

end Words
