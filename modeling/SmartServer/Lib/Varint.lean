import Mathlib

/-!
# Numbers in groups of seven bits

A number is written as groups of seven bits, the lowest group first, a byte for each; the high bit
of a byte says that there are more. Zeros may be written behind the last group that is not zero, so
a number has many encodings. `encode` gives the shortest, and `decode` reads every one of at most
`limit` bytes.

**Reading back** (`decode_encode`). A number below `128 ^ limit` is read as it was written, and
nothing behind it is touched. What was read does not depend on what comes behind it
(`decode_append`).

**Lengths** (`length_encode_le_iff`). The shortest encoding has at most `k` bytes exactly when the
number is below `128 ^ k`. Whatever was read is no shorter (`length_encode_of_decode`).

**Zero bytes** (`zero_mem_encode`). There is a zero byte in the shortest encoding of `0` only.
-/

namespace Varint

/-! ## Writing -/

/-- The groups of `n`, at most `fuel` besides the last. -/
def groups : ℕ → ℕ → List UInt8
  | 0, n => [UInt8.ofNat (n % 128)]
  | fuel + 1, n =>
    if n < 128 then [UInt8.ofNat n]
    else UInt8.ofNat (n % 128 + 128) :: groups fuel (n / 128)

/-- The shortest encoding. -/
def encode (n : ℕ) : List UInt8 := groups n n

theorem groups_eq {fuel n : ℕ} (h : n ≤ fuel) : groups fuel n = encode n := by
  induction fuel using Nat.strong_induction_on generalizing n with
  | _ fuel ih =>
    cases n with
    | zero => cases fuel <;> rfl
    | succ n =>
      obtain ⟨fuel, rfl⟩ : ∃ k, fuel = k + 1 := ⟨fuel - 1, by omega⟩
      rw [encode, groups, groups]
      by_cases hlt : n + 1 < 128
      · rw [if_pos hlt, if_pos hlt]
      · have hdiv : (n + 1) / 128 ≤ n := by omega
        rw [if_neg hlt, if_neg hlt, ih fuel (Nat.lt_succ_self _) (by omega)]
        rcases (show n ≤ fuel by omega).lt_or_eq with hfuel | rfl
        · rw [ih n (by omega) hdiv]
        · rw [ih n (Nat.lt_succ_self _) hdiv]

theorem encode_of_lt {n : ℕ} (h : n < 128) : encode n = [UInt8.ofNat n] := by
  cases n with
  | zero => rfl
  | succ n => exact if_pos h

theorem encode_of_le {n : ℕ} (h : 128 ≤ n) :
    encode n = UInt8.ofNat (n % 128 + 128) :: encode (n / 128) := by
  obtain ⟨k, rfl⟩ : ∃ k, n = k + 1 := ⟨n - 1, by omega⟩
  rw [encode, groups, if_neg (not_lt.mpr h), groups_eq (by omega)]

/-- Induction over the groups of a number. -/
theorem induction {P : ℕ → Prop} (last : ∀ n, n < 128 → P n)
    (more : ∀ n, 128 ≤ n → P (n / 128) → P n) (n : ℕ) : P n := by
  induction n using Nat.strong_induction_on with
  | _ n ih =>
    by_cases h : n < 128
    · exact last n h
    · exact more n (not_lt.mp h) (ih _ (by omega))

theorem encode_ne_nil (n : ℕ) : encode n ≠ [] := by
  by_cases h : n < 128
  · rw [encode_of_lt h]
    exact List.cons_ne_nil _ _
  · rw [encode_of_le (not_lt.mp h)]
    exact List.cons_ne_nil _ _

theorem length_encode_le_iff {n k : ℕ} : (encode n).length ≤ k + 1 ↔ n < 128 ^ (k + 1) := by
  induction k generalizing n with
  | zero =>
    by_cases h : n < 128
    · simp [encode_of_lt h, h]
    · have hpos := List.length_pos_iff.mpr (encode_ne_nil (n / 128))
      rw [encode_of_le (not_lt.mp h), List.length_cons]
      omega
  | succ k ih =>
    by_cases h : n < 128
    · rw [encode_of_lt h]
      have hpow : 128 ^ 1 ≤ 128 ^ (k + 1 + 1) := Nat.pow_le_pow_right (by decide) (by omega)
      simp only [List.length_singleton]
      omega
    · rw [encode_of_le (not_lt.mp h), List.length_cons, Nat.add_le_add_iff_right, ih,
        Nat.div_lt_iff_lt_mul (by decide), ← pow_succ]

theorem length_encode_mono {m n : ℕ} (h : m ≤ n) : (encode m).length ≤ (encode n).length := by
  obtain ⟨k, hk⟩ : ∃ k, (encode n).length = k + 1 :=
    Nat.exists_eq_succ_of_ne_zero (List.length_pos_iff.mpr (encode_ne_nil n)).ne'
  rw [hk, length_encode_le_iff]
  exact h.trans_lt (length_encode_le_iff.mp hk.le)

/-- Group `k` of `n`, when there are more. -/
def more (n k : ℕ) : UInt8 := UInt8.ofNat (n / 128 ^ k % 128 + 128)

theorem encode_append {n k : ℕ} (h : k = 0 ∨ 128 ^ k ≤ n) :
    encode n = (List.range k).map (more n) ++ encode (n / 128 ^ k) := by
  induction k with
  | zero => simp
  | succ k ih =>
    have hpow : 128 ^ k * 128 ≤ n := by
      rw [← pow_succ]
      exact h.resolve_left (Nat.succ_ne_zero k)
    have hle : 128 ^ k ≤ n := (Nat.le_mul_of_pos_right _ (by decide)).trans hpow
    have hgroup : 128 ≤ n / 128 ^ k := by
      rw [Nat.le_div_iff_mul_le (Nat.pow_pos (by decide)), Nat.mul_comm]
      exact hpow
    rw [ih (Or.inr hle), encode_of_le hgroup, List.range_succ, List.map_append, List.append_assoc,
      pow_succ, Nat.div_div_eq_div_mul]
    rfl

/-- All groups of a number at once. -/
theorem encode_eq {n k : ℕ} (h : k = 0 ∨ 128 ^ k ≤ n) (hlt : n < 128 ^ (k + 1)) :
    encode n = (List.range k).map (more n) ++ [UInt8.ofNat (n / 128 ^ k)] := by
  have hlast : n / 128 ^ k < 128 := by
    rw [Nat.div_lt_iff_lt_mul (Nat.pow_pos (by decide)), Nat.mul_comm, ← pow_succ]
    exact hlt
  rw [encode_append h, encode_of_lt hlast]

theorem length_encode {n k : ℕ} (h : k = 0 ∨ 128 ^ k ≤ n) (hlt : n < 128 ^ (k + 1)) :
    (encode n).length = k + 1 := by
  simp [encode_eq h hlt]

/-- A zero byte is the whole encoding of `0`. -/
theorem zero_mem_encode {n : ℕ} : 0 ∈ encode n ↔ n = 0 := by
  induction n using induction with
  | last n h =>
    rw [encode_of_lt h, List.mem_singleton, eq_comm, ← UInt8.toNat_inj, UInt8.toNat_ofNat',
      Nat.mod_eq_of_lt (by omega)]
    rfl
  | more n h ih =>
    have hfirst : (0 : UInt8) ≠ UInt8.ofNat (n % 128 + 128) := by
      intro heq
      have hnat := congrArg UInt8.toNat heq
      rw [UInt8.toNat_ofNat', Nat.mod_eq_of_lt (by omega), UInt8.toNat_zero] at hnat
      omega
    rw [encode_of_le h, List.mem_cons, or_iff_right hfirst, ih]
    omega

/-! ## Reading -/

/-- The number that is encoded at the front, in at most `limit` bytes, and what comes behind. -/
def decode : ℕ → List UInt8 → Option (ℕ × List UInt8)
  | 0, _ => none
  | _ + 1, [] => none
  | limit + 1, b :: bs =>
    if b.toNat < 128 then some (b.toNat, bs)
    else (decode limit bs).map fun x => (b.toNat % 128 + 128 * x.1, x.2)

variable {limit n : ℕ} {b : UInt8} {bytes rest : List UInt8}

theorem decode_cons_of_lt (h : b.toNat < 128) :
    decode (limit + 1) (b :: bytes) = some (b.toNat, bytes) := if_pos h

theorem decode_cons_of_le (h : 128 ≤ b.toNat) :
    decode (limit + 1) (b :: bytes) =
      (decode limit bytes).map fun x => (b.toNat % 128 + 128 * x.1, x.2) :=
  if_neg (not_lt.mpr h)

@[simp] theorem decode_nil : decode limit [] = none := by
  cases limit <;> rfl

theorem toNat_more (n : ℕ) : (UInt8.ofNat (n % 128 + 128)).toNat = n % 128 + 128 := by
  rw [UInt8.toNat_ofNat']
  omega

/-- **A number is read as it was written.** -/
theorem decode_encode (h : n < 128 ^ (limit + 1)) (rest : List UInt8) :
    decode (limit + 1) (encode n ++ rest) = some (n, rest) := by
  induction limit generalizing n with
  | zero =>
    have hlt : n < 128 := by simpa using h
    have hbyte : (UInt8.ofNat n).toNat = n := by
      rw [UInt8.toNat_ofNat']
      omega
    rw [encode_of_lt hlt, List.singleton_append, decode_cons_of_lt (by omega), hbyte]
  | succ limit ih =>
    by_cases hlt : n < 128
    · have hbyte : (UInt8.ofNat n).toNat = n := by
        rw [UInt8.toNat_ofNat']
        omega
      rw [encode_of_lt hlt, List.singleton_append, decode_cons_of_lt (by omega), hbyte]
    · have hdiv : n / 128 < 128 ^ (limit + 1) := by
        rw [Nat.div_lt_iff_lt_mul (by decide), ← pow_succ]
        exact h
      rw [encode_of_le (not_lt.mp hlt), List.cons_append,
        decode_cons_of_le (by rw [toNat_more]; omega), ih hdiv, toNat_more, Option.map_some]
      congr 2
      omega

/-- What is read does not depend on what comes behind it. -/
theorem decode_append (h : decode limit bytes = some (n, rest)) (more : List UInt8) :
    decode limit (bytes ++ more) = some (n, rest ++ more) := by
  induction limit generalizing bytes n with
  | zero => cases h
  | succ limit ih =>
    cases bytes with
    | nil => cases h
    | cons b bs =>
      rw [List.cons_append]
      by_cases hb : b.toNat < 128
      · rw [decode_cons_of_lt hb] at h ⊢
        obtain ⟨rfl, rfl⟩ := Prod.mk.inj (Option.some.inj h)
        rfl
      · rw [decode_cons_of_le (not_lt.mp hb)] at h ⊢
        obtain ⟨⟨m, rest'⟩, hm, heq⟩ := Option.map_eq_some_iff.mp h
        obtain ⟨rfl, rfl⟩ := Prod.mk.inj heq
        rw [ih hm]
        rfl

/-- What is read is at the front, and has a byte at least. -/
theorem decode_inv (h : decode limit bytes = some (n, rest)) :
    ∃ front, bytes = front ++ rest ∧ front ≠ [] ∧ front.length ≤ limit ∧ n < 128 ^ limit := by
  induction limit generalizing bytes n with
  | zero => cases h
  | succ limit ih =>
    cases bytes with
    | nil => cases h
    | cons b bs =>
      by_cases hb : b.toNat < 128
      · rw [decode_cons_of_lt hb] at h
        obtain ⟨rfl, rfl⟩ := Prod.mk.inj (Option.some.inj h)
        refine ⟨[b], rfl, List.cons_ne_nil _ _, by simp, hb.trans_le ?_⟩
        exact Nat.le_self_pow (Nat.succ_ne_zero limit) 128
      · rw [decode_cons_of_le (not_lt.mp hb)] at h
        obtain ⟨⟨m, rest'⟩, hm, heq⟩ := Option.map_eq_some_iff.mp h
        obtain ⟨rfl, rfl⟩ := Prod.mk.inj heq
        obtain ⟨front, rfl, -, hlen, hlt⟩ := ih hm
        refine ⟨b :: front, rfl, List.cons_ne_nil _ _, Nat.succ_le_succ hlen, ?_⟩
        rw [pow_succ]
        omega

/-- The bytes that were read are no fewer than the shortest encoding has. -/
theorem length_encode_of_decode (h : decode limit bytes = some (n, rest)) :
    (encode n).length + rest.length ≤ bytes.length := by
  induction limit generalizing bytes n with
  | zero => cases h
  | succ limit ih =>
    cases bytes with
    | nil => cases h
    | cons b bs =>
      by_cases hb : b.toNat < 128
      · rw [decode_cons_of_lt hb] at h
        obtain ⟨rfl, rfl⟩ := Prod.mk.inj (Option.some.inj h)
        rw [encode_of_lt hb, List.length_singleton, List.length_cons]
        omega
      · rw [decode_cons_of_le (not_lt.mp hb)] at h
        obtain ⟨⟨m, rest'⟩, hm, heq⟩ := Option.map_eq_some_iff.mp h
        obtain ⟨rfl, rfl⟩ := Prod.mk.inj heq
        have hle := ih hm
        have hpos := List.length_pos_iff.mpr (encode_ne_nil m)
        rw [List.length_cons]
        by_cases hlt : b.toNat % 128 + 128 * m < 128
        · rw [encode_of_lt hlt, List.length_singleton]
          omega
        · have hdiv : (b.toNat % 128 + 128 * m) / 128 = m := by omega
          rw [encode_of_le (not_lt.mp hlt), List.length_cons, hdiv]
          omega

/-! ## Reading in parts -/

/-- The number in these groups, whatever their high bits say. -/
def low : List UInt8 → ℕ
  | [] => 0
  | b :: bs => b.toNat % 128 + 128 * low bs

theorem low_lt (bytes : List UInt8) : low bytes < 128 ^ bytes.length := by
  induction bytes with
  | nil => exact Nat.one_pos
  | cons b bs ih =>
    rw [low, List.length_cons, pow_succ]
    omega

/-- A number that is not read in the first `i` bytes is read with those behind them. -/
theorem decode_add {i : ℕ} (j : ℕ) (h : decode i bytes = none) (hlen : i ≤ bytes.length) :
    decode (i + j) bytes =
      (decode j (bytes.drop i)).map fun x => (low (bytes.take i) + 128 ^ i * x.1, x.2) := by
  induction i generalizing bytes with
  | zero => simp [low]
  | succ i ih =>
    cases bytes with
    | nil => cases hlen
    | cons b bs =>
      have hb : ¬ b.toNat < 128 := by
        intro hlt
        rw [decode_cons_of_lt hlt] at h
        cases h
      rw [decode_cons_of_le (not_lt.mp hb), Option.map_eq_none_iff] at h
      rw [Nat.add_right_comm, decode_cons_of_le (not_lt.mp hb),
        ih h (Nat.le_of_succ_le_succ hlen), Option.map_map, List.drop_succ_cons,
        List.take_succ_cons]
      congr 1
      funext x
      simp only [Function.comp_apply, low, pow_succ]
      congr 1
      ring

/-- A number that is read in the first `i` bytes is read. -/
theorem decode_mono {i : ℕ} (j : ℕ) (h : decode i bytes = some (n, rest)) :
    decode (i + j) bytes = some (n, rest) := by
  induction i generalizing bytes n rest with
  | zero => cases h
  | succ i ih =>
    cases bytes with
    | nil => cases h
    | cons b bs =>
      rw [Nat.add_right_comm]
      by_cases hb : b.toNat < 128
      · rw [decode_cons_of_lt hb] at h ⊢
        exact h
      · rw [decode_cons_of_le (not_lt.mp hb)] at h ⊢
        obtain ⟨⟨m, rest'⟩, hm, heq⟩ := Option.map_eq_some_iff.mp h
        rw [ih hm, Option.map_some, heq]

end Varint
