/-
AmbiRTC/Leb128.lean

Unsigned LEB128: a natural number as bytes of seven bits each, lowest group
first, every byte but the last with its high bit set.

`decode` reads one number at the head of a byte list and says how many bytes
it took; it has no width of its own, so a reader that stops after ten bytes or
keeps only 32 bits is compared with it rather than built into it.  `decode64`
is the restriction to the numbers a 64-bit reader can return: at most ten
bytes and a value below `2^64`.

Main results: `decode_encode` (round trip in front of any suffix) and
`decode64_encode`; `table`, a sequence of numbers read one after the other,
comes with its own round trip `table_encode`.  A number has exactly one minimal
encoding (`minimal_iff_eq_encode`), and a table is written back as it was read
just when each of its entries is minimal (`entries_minimal_iff`).
-/
import Mathlib.Data.List.Basic
import Mathlib.Tactic.Ring

namespace Leb128

/-! ### One number -/

/-- The shortest encoding of `n`. -/
def encode (n : ℕ) : List UInt8 :=
  if n < 128 then [UInt8.ofNat n] else UInt8.ofNat (n % 128 + 128) :: encode (n / 128)
termination_by n
decreasing_by omega

/-- The number at the head of the bytes, with the count of bytes it took;
`none` when no byte ends it. -/
def decode : List UInt8 → Option (ℕ × ℕ)
  | [] => none
  | b :: rest =>
      if b.toNat < 128 then some (b.toNat, 1)
      else (decode rest).map fun r => (b.toNat - 128 + 128 * r.1, r.2 + 1)

theorem decode_cons_last {b : UInt8} (rest : List UInt8) (h : b.toNat < 128) :
    decode (b :: rest) = some (b.toNat, 1) := by
  simp [decode, h]

theorem decode_cons_more {b : UInt8} (rest : List UInt8) (h : ¬ b.toNat < 128) :
    decode (b :: rest)
      = (decode rest).map fun r => (b.toNat - 128 + 128 * r.1, r.2 + 1) := by
  simp [decode, h]

/-- A continued number, taken apart. -/
theorem decode_cons_more_some {b : UInt8} {rest : List UInt8} {v k : ℕ}
    (h : ¬ b.toNat < 128) (hd : decode (b :: rest) = some (v, k)) :
    ∃ v' k', decode rest = some (v', k') ∧ v = b.toNat - 128 + 128 * v' ∧ k = k' + 1 := by
  rw [decode_cons_more rest h] at hd
  obtain ⟨⟨v', k'⟩, hr, he⟩ := Option.map_eq_some_iff.mp hd
  simp only [Prod.mk.injEq] at he
  exact ⟨v', k', hr, he.1.symm, he.2.symm⟩

theorem decode_pos {buf : List UInt8} {v k : ℕ} (h : decode buf = some (v, k)) : 1 ≤ k := by
  cases buf with
  | nil => cases h
  | cons b rest =>
    by_cases hb : b.toNat < 128
    · rw [decode_cons_last rest hb] at h
      simp only [Option.some.injEq, Prod.mk.injEq] at h
      omega
    · obtain ⟨v', k', -, -, hk⟩ := decode_cons_more_some hb h
      omega

theorem decode_le_length {buf : List UInt8} {v k : ℕ} (h : decode buf = some (v, k)) :
    k ≤ buf.length := by
  induction buf generalizing v k with
  | nil => cases h
  | cons b rest ih =>
    by_cases hb : b.toNat < 128
    · rw [decode_cons_last rest hb] at h
      simp only [Option.some.injEq, Prod.mk.injEq] at h
      simp only [List.length_cons]
      omega
    · obtain ⟨v', k', hr, -, hk⟩ := decode_cons_more_some hb h
      have := ih hr
      simp only [List.length_cons]
      omega

/-- `k` groups of seven bits hold numbers below `128^k`. -/
theorem decode_lt {buf : List UInt8} {v k : ℕ} (h : decode buf = some (v, k)) :
    v < 128 ^ k := by
  induction buf generalizing v k with
  | nil => cases h
  | cons b rest ih =>
    by_cases hb : b.toNat < 128
    · rw [decode_cons_last rest hb] at h
      simp only [Option.some.injEq, Prod.mk.injEq] at h
      obtain ⟨rfl, rfl⟩ := h
      simpa using hb
    · obtain ⟨v', k', hr, hv, hk⟩ := decode_cons_more_some hb h
      have hv' := ih hr
      have hlt := b.toNat_lt
      rw [hk, pow_succ]
      omega

/-! ### Encoding and back -/

theorem encode_of_lt {n : ℕ} (h : n < 128) : encode n = [UInt8.ofNat n] := by
  rw [encode, if_pos h]

theorem encode_of_ge {n : ℕ} (h : ¬ n < 128) :
    encode n = UInt8.ofNat (n % 128 + 128) :: encode (n / 128) := by
  rw [encode, if_neg h]

theorem toNat_ofNat_of_lt {n : ℕ} (h : n < 256) : (UInt8.ofNat n).toNat = n := by
  rw [UInt8.toNat_ofNat']
  exact Nat.mod_eq_of_lt h

theorem decode_encode (n : ℕ) (rest : List UInt8) :
    decode (encode n ++ rest) = some (n, (encode n).length) := by
  induction n using Nat.strongRecOn with
  | ind n ih =>
    by_cases hn : n < 128
    · have hb := toNat_ofNat_of_lt (show n < 256 by omega)
      rw [encode_of_lt hn, List.singleton_append, decode_cons_last _ (by omega), hb]
      rfl
    · have hb := toNat_ofNat_of_lt (show n % 128 + 128 < 256 by omega)
      rw [encode_of_ge hn, List.cons_append, decode_cons_more _ (by omega), hb,
        ih (n / 128) (by omega), Option.map_some, List.length_cons]
      congr 2
      omega

theorem length_encode_le {n k : ℕ} (h : n < 128 ^ (k + 1)) : (encode n).length ≤ k + 1 := by
  induction k generalizing n with
  | zero => rw [encode_of_lt (by simpa using h)]; simp
  | succ k ih =>
    by_cases hn : n < 128
    · rw [encode_of_lt hn]; simp
    · rw [encode_of_ge hn, List.length_cons]
      have := ih (n := n / 128) (by rw [pow_succ] at h; omega)
      omega

/-! ### The numbers a 64-bit reader returns -/

/-- One number of at most ten bytes that fits 64 bits. -/
def decode64 (buf : List UInt8) : Option (ℕ × ℕ) :=
  (decode buf).filter fun r => decide (r.2 ≤ 10 ∧ r.1 < 2 ^ 64)

theorem decode64_eq_some {buf : List UInt8} {v k : ℕ} :
    decode64 buf = some (v, k) ↔ decode buf = some (v, k) ∧ k ≤ 10 ∧ v < 2 ^ 64 := by
  simp [decode64, Option.filter_eq_some_iff]

theorem decode64_eq_none {buf : List UInt8} :
    decode64 buf = none ↔ ∀ v k, decode buf = some (v, k) → ¬ (k ≤ 10 ∧ v < 2 ^ 64) := by
  simp [decode64, Option.filter_eq_none_iff]

theorem decode64_le_length {buf : List UInt8} {v k : ℕ} (h : decode64 buf = some (v, k)) :
    k ≤ buf.length :=
  decode_le_length (decode64_eq_some.mp h).1

theorem decode64_encode {n : ℕ} (h : n < 2 ^ 64) (rest : List UInt8) :
    decode64 (encode n ++ rest) = some (n, (encode n).length) :=
  decode64_eq_some.mpr ⟨decode_encode n rest, length_encode_le (k := 9) (by omega), h⟩

/-! ### Tables -/

/-- `n` numbers read one after the other, with the bytes after the last. -/
def table : ℕ → List UInt8 → Option (List ℕ × List UInt8)
  | 0, buf => some ([], buf)
  | n + 1, buf =>
      match decode64 buf with
      | none => none
      | some (v, k) => (table n (buf.drop k)).map fun r => (v :: r.1, r.2)

theorem table_succ_eq_some {n : ℕ} {buf rest : List UInt8} {vs : List ℕ} :
    table (n + 1) buf = some (vs, rest) ↔
      ∃ v k vs', decode64 buf = some (v, k) ∧ table n (buf.drop k) = some (vs', rest) ∧
        vs = v :: vs' := by
  rcases hd : decode64 buf with - | ⟨v, k⟩
  · simp [table, hd]
  · simp only [table, hd, Option.map_eq_some_iff, Prod.mk.injEq, Prod.exists]
    constructor
    · rintro ⟨vs', rest', ht, rfl, rfl⟩
      exact ⟨v, k, vs', rfl, ht, rfl⟩
    · rintro ⟨v', k', vs', he, ht, rfl⟩
      obtain ⟨rfl, rfl⟩ := Prod.mk.inj (Option.some.inj he)
      exact ⟨vs', rest, ht, rfl, rfl⟩

/-- The bytes each number of a table takes. -/
def widths : ℕ → List UInt8 → List ℕ
  | 0, _ => []
  | n + 1, buf =>
      match decode buf with
      | none => []
      | some (_, k) => k :: widths n (buf.drop k)

theorem widths_succ {n : ℕ} {buf : List UInt8} {v k : ℕ} (h : decode buf = some (v, k)) :
    widths (n + 1) buf = k :: widths n (buf.drop k) := by
  simp [widths, h]

theorem table_length {n : ℕ} {buf rest : List UInt8} {vs : List ℕ}
    (h : table n buf = some (vs, rest)) : vs.length = n := by
  induction n generalizing buf vs with
  | zero =>
    obtain ⟨rfl, -⟩ := Prod.mk.inj (Option.some.inj h)
    rfl
  | succ n ih =>
    obtain ⟨v, k, vs', -, ht, rfl⟩ := table_succ_eq_some.mp h
    rw [List.length_cons, ih ht]

theorem table_lt {n : ℕ} {buf rest : List UInt8} {vs : List ℕ}
    (h : table n buf = some (vs, rest)) : ∀ v ∈ vs, v < 2 ^ 64 := by
  induction n generalizing buf vs with
  | zero =>
    obtain ⟨rfl, -⟩ := Prod.mk.inj (Option.some.inj h)
    simp
  | succ n ih =>
    obtain ⟨v, k, vs', hd, ht, rfl⟩ := table_succ_eq_some.mp h
    intro w hw
    rcases List.mem_cons.mp hw with rfl | hw
    · exact (decode64_eq_some.mp hd).2.2
    · exact ih ht w hw

/-- Entries of at most `m` bytes are below `128^m`. -/
theorem table_lt_of_widths {n m : ℕ} {buf rest : List UInt8} {vs : List ℕ}
    (h : table n buf = some (vs, rest)) (hw : ∀ k ∈ widths n buf, k ≤ m) :
    ∀ v ∈ vs, v < 128 ^ m := by
  induction n generalizing buf vs with
  | zero =>
    obtain ⟨rfl, -⟩ := Prod.mk.inj (Option.some.inj h)
    simp
  | succ n ih =>
    obtain ⟨v, k, vs', hd64, ht, rfl⟩ := table_succ_eq_some.mp h
    have hd := (decode64_eq_some.mp hd64).1
    rw [widths_succ hd] at hw
    intro w hmem
    rcases List.mem_cons.mp hmem with rfl | hmem
    · exact lt_of_lt_of_le (decode_lt hd) (Nat.pow_le_pow_right (by decide) (hw k (by simp)))
    · exact ih ht (fun k' hk' => hw k' (by simp [hk'])) w hmem

theorem table_encode {vs : List ℕ} (h : ∀ v ∈ vs, v < 2 ^ 64) (rest : List UInt8) :
    table vs.length (vs.flatMap encode ++ rest) = some (vs, rest) := by
  induction vs with
  | nil => rfl
  | cons v vs ih =>
    refine table_succ_eq_some.mpr ⟨v, (encode v).length, vs, ?_, ?_, rfl⟩
    · rw [List.flatMap_cons, List.append_assoc]
      exact decode64_encode (h v (by simp)) _
    · rw [List.flatMap_cons, List.append_assoc, List.drop_left]
      exact ih fun w hw => h w (by simp [hw])

theorem widths_encode (vs : List ℕ) (rest : List UInt8) :
    widths vs.length (vs.flatMap encode ++ rest) = vs.map fun v => (encode v).length := by
  induction vs with
  | nil => rfl
  | cons v vs ih =>
    rw [List.flatMap_cons, List.append_assoc, List.length_cons, widths_succ (decode_encode v _),
      List.drop_left, ih, List.map_cons]

/-! ### Minimal encodings -/

/-- The bytes are one encoded number, and no encoding of it is shorter. -/
def Minimal (bytes : List UInt8) : Prop :=
  ∃ v, decode bytes = some (v, bytes.length) ∧
    ∀ other k, decode other = some (v, k) → bytes.length ≤ k

/-- `encode` is as short as any encoding of the number. -/
theorem length_encode_le_of_decode {buf : List UInt8} {v k : ℕ}
    (h : decode buf = some (v, k)) : (encode v).length ≤ k := by
  have hk := decode_pos h
  have hlt := decode_lt h
  obtain ⟨j, rfl⟩ : ∃ j, k = j + 1 := ⟨k - 1, by omega⟩
  exact length_encode_le hlt

/-- Among the encodings of one number there is one of each length at most. -/
theorem eq_of_decode_eq {a b : List UInt8} {v : ℕ} (ha : decode a = some (v, a.length))
    (hb : decode b = some (v, b.length)) (hlen : a.length = b.length) : a = b := by
  induction a generalizing b v with
  | nil => cases ha
  | cons x xs ih =>
    obtain ⟨y, ys, rfl⟩ := List.exists_cons_of_length_eq_add_one hlen.symm
    have hlen' : xs.length = ys.length := by simpa using hlen
    by_cases hx : x.toNat < 128 <;> by_cases hy : y.toNat < 128
    · rw [decode_cons_last _ hx] at ha
      rw [decode_cons_last _ hy] at hb
      simp only [Option.some.injEq, Prod.mk.injEq, List.length_cons] at ha hb
      have hxs : xs = [] := List.length_eq_zero_iff.mp (by omega)
      have hys : ys = [] := List.length_eq_zero_iff.mp (by omega)
      rw [hxs, hys, UInt8.toNat_inj.mp (ha.1.trans hb.1.symm)]
    · -- a number of one byte has no encoding of one byte that continues
      obtain ⟨v', k', hr, -, hk⟩ := decode_cons_more_some hy hb
      have := decode_pos hr
      rw [decode_cons_last _ hx] at ha
      simp only [Option.some.injEq, Prod.mk.injEq, List.length_cons] at ha hk
      omega
    · obtain ⟨v', k', hr, -, hk⟩ := decode_cons_more_some hx ha
      have := decode_pos hr
      rw [decode_cons_last _ hy] at hb
      simp only [Option.some.injEq, Prod.mk.injEq, List.length_cons] at hb hk
      omega
    · obtain ⟨v', k', hr, hv, hk⟩ := decode_cons_more_some hx ha
      obtain ⟨w', j', hs, hw, hj⟩ := decode_cons_more_some hy hb
      have hxlt := x.toNat_lt
      have hylt := y.toNat_lt
      simp only [List.length_cons] at hk hj
      -- the low group is the remainder by 128, and the rest encodes the quotient
      have hquot : v' = w' := by omega
      have hlow : x.toNat = y.toNat := by omega
      rw [show k' = xs.length by omega] at hr
      rw [show j' = ys.length by omega, ← hquot] at hs
      rw [ih hr hs hlen', UInt8.toNat_inj.mp hlow]

theorem decode_encode_self (v : ℕ) : decode (encode v) = some (v, (encode v).length) := by
  have h := decode_encode v []
  rwa [List.append_nil] at h

/-- **Minimal encodings are unique.** -/
theorem minimal_iff_eq_encode {bytes : List UInt8} {v : ℕ}
    (h : decode bytes = some (v, bytes.length)) : Minimal bytes ↔ bytes = encode v := by
  constructor
  · rintro ⟨w, hw, hmin⟩
    obtain ⟨rfl, -⟩ := Prod.mk.inj (Option.some.inj (h.symm.trans hw))
    apply eq_of_decode_eq h (decode_encode_self v)
    exact le_antisymm (hmin _ _ (decode_encode_self v)) (length_encode_le_of_decode h)
  · intro heq
    refine ⟨v, h, fun other k hother => ?_⟩
    rw [heq]
    exact length_encode_le_of_decode hother

/-- A number that decodes takes the bytes it is cut to. -/
theorem decode_take {buf : List UInt8} {v k : ℕ} (h : decode buf = some (v, k)) :
    decode (buf.take k) = some (v, k) := by
  induction buf generalizing v k with
  | nil => cases h
  | cons b rest ih =>
    by_cases hb : b.toNat < 128
    · rw [decode_cons_last rest hb] at h
      obtain ⟨rfl, rfl⟩ := Prod.mk.inj (Option.some.inj h)
      exact decode_cons_last [] hb
    · obtain ⟨v', k', hr, rfl, rfl⟩ := decode_cons_more_some hb h
      rw [List.take_succ_cons, decode_cons_more _ hb, ih hr]
      rfl

/-- The byte strings of the numbers of a table. -/
def entries : ℕ → List UInt8 → List (List UInt8)
  | 0, _ => []
  | n + 1, buf =>
      match decode buf with
      | none => []
      | some (_, k) => buf.take k :: entries n (buf.drop k)

theorem entries_succ {n : ℕ} {buf : List UInt8} {v k : ℕ} (h : decode buf = some (v, k)) :
    entries (n + 1) buf = buf.take k :: entries n (buf.drop k) := by
  simp [entries, h]

theorem length_entries {n : ℕ} {buf rest : List UInt8} {vs : List ℕ}
    (h : table n buf = some (vs, rest)) : (entries n buf).length = n := by
  induction n generalizing buf vs with
  | zero => rfl
  | succ n ih =>
    obtain ⟨v, k, vs', hd, ht, rfl⟩ := table_succ_eq_some.mp h
    rw [entries_succ (decode64_eq_some.mp hd).1, List.length_cons, ih ht]

/-- The entries of a table, one after the other, are the bytes in front of the
rest. -/
theorem flatten_entries {n : ℕ} {buf rest : List UInt8} {vs : List ℕ}
    (h : table n buf = some (vs, rest)) : (entries n buf).flatten ++ rest = buf := by
  induction n generalizing buf vs with
  | zero =>
    obtain ⟨-, rfl⟩ := Prod.mk.inj (Option.some.inj h)
    rfl
  | succ n ih =>
    obtain ⟨v, k, vs', hd, ht, rfl⟩ := table_succ_eq_some.mp h
    rw [entries_succ (decode64_eq_some.mp hd).1, List.flatten_cons, List.append_assoc, ih ht,
      List.take_append_drop]

theorem entries_encode (vs : List ℕ) (rest : List UInt8) :
    entries vs.length (vs.flatMap encode ++ rest) = vs.map encode := by
  induction vs with
  | nil => rfl
  | cons v vs ih =>
    rw [List.flatMap_cons, List.append_assoc, List.length_cons, entries_succ (decode_encode v _),
      List.take_left, List.drop_left, ih, List.map_cons]

/-- The entries are all minimal when they are the encodings of the values read. -/
theorem entries_eq_encode_iff {n : ℕ} {buf rest : List UInt8} {vs : List ℕ}
    (h : table n buf = some (vs, rest)) :
    entries n buf = vs.map encode ↔ ∀ e ∈ entries n buf, Minimal e := by
  induction n generalizing buf vs with
  | zero =>
    obtain ⟨rfl, rfl⟩ := Prod.mk.inj (Option.some.inj h)
    simp [entries]
  | succ n ih =>
    obtain ⟨v, k, vs', hd, ht, rfl⟩ := table_succ_eq_some.mp h
    have hdec := (decode64_eq_some.mp hd).1
    have hlen : (buf.take k).length = k := by
      rw [List.length_take]
      exact min_eq_left (decode_le_length hdec)
    have hself : decode (buf.take k) = some (v, (buf.take k).length) := by
      rw [hlen]
      exact decode_take hdec
    rw [entries_succ hdec, List.map_cons, List.forall_mem_cons, ← ih ht,
      minimal_iff_eq_encode hself]
    exact List.cons.injEq _ _ _ _ ▸ Iff.rfl

/-- **A table is written back as it was read** just when its entries are
minimal. -/
theorem entries_minimal_iff {n : ℕ} {buf rest : List UInt8} {vs : List ℕ}
    (h : table n buf = some (vs, rest)) :
    vs.flatMap encode ++ rest = buf ↔ ∀ e ∈ entries n buf, Minimal e := by
  rw [← entries_eq_encode_iff h]
  constructor
  · intro heq
    have hback := entries_encode vs rest
    rwa [heq, table_length h] at hback
  · intro heq
    conv_rhs => rw [← flatten_entries h, heq]
    rfl

/-- Written back, a table takes no more bytes than it was read from. -/
theorem length_flatMap_encode_le {n : ℕ} {buf rest : List UInt8} {vs : List ℕ}
    (h : table n buf = some (vs, rest)) :
    (vs.flatMap encode ++ rest).length ≤ buf.length := by
  induction n generalizing buf vs with
  | zero =>
    obtain ⟨rfl, rfl⟩ := Prod.mk.inj (Option.some.inj h)
    exact le_rfl
  | succ n ih =>
    obtain ⟨v, k, vs', hd, ht, rfl⟩ := table_succ_eq_some.mp h
    have hle := length_encode_le_of_decode (decode64_eq_some.mp hd).1
    have hk := decode64_le_length hd
    have hrest := ih ht
    rw [List.length_drop] at hrest
    rw [List.flatMap_cons, List.append_assoc, List.length_append]
    omega

end Leb128
