import SmartServer.StructType
import SmartServer.Lib.Varint

/-!
# `CodedOutputStream` into an array

The functions of `coded_stream.h` and `coded_stream.cc` that write into an array with room enough,
and those that say how much room that is. What is written is the list of the bytes.

**Shortest encodings** (`writeVarint32ToArray_eq`, `writeVarint64ToArray_eq`). A 64-bit number is
cut into three parts of 32 bits, all ten bytes are made of them, and the last byte that counts is
corrected; the result is the shortest encoding of the number. A tag is written as a number
(`writeTagToArray_eq`), and a negative `int32` as the `uint64` it is converted to
(`writeVarint32SignExtendedToArray_eq`).

**Sizes** (`varintSize32_eq`, `varintSize64_eq`, `varintSize32SignExtended_eq`). The tables of
bounds give the length of what is written.
-/

namespace SmartServer

namespace CodedOutputStream

/-- Byte `k` of a varint that goes on. -/
def moreByte (value : UInt32) (k : UInt32) : UInt8 := (value >>> (7 * k) ||| 0x80).toUInt8

/-- Byte `k` of a varint, when it is the last. -/
def lastByte (value : UInt32) (k : UInt32) : UInt8 := moreByte value k &&& 0x7F

def writeVarint32FallbackToArray (value : UInt32) : List UInt8 :=
  if value.toNat ≥ 2 ^ 7 then
    if value.toNat ≥ 2 ^ 14 then
      if value.toNat ≥ 2 ^ 21 then
        if value.toNat ≥ 2 ^ 28 then
          [moreByte value 0, moreByte value 1, moreByte value 2, moreByte value 3,
            (value >>> 28).toUInt8]
        else [moreByte value 0, moreByte value 1, moreByte value 2, lastByte value 3]
      else [moreByte value 0, moreByte value 1, lastByte value 2]
    else [moreByte value 0, lastByte value 1]
  else [lastByte value 0]

def writeVarint32ToArray (value : UInt32) : List UInt8 :=
  if value < 0x80 then [value.toUInt8] else writeVarint32FallbackToArray value

/-- The number of bytes that `WriteVarint64ToArray` finds. -/
def sizeOfParts (part0 part1 part2 : UInt32) : ℕ :=
  if part2 = 0 then
    if part1 = 0 then
      if part0.toNat < 2 ^ 14 then if part0.toNat < 2 ^ 7 then 1 else 2
      else if part0.toNat < 2 ^ 21 then 3 else 4
    else
      if part1.toNat < 2 ^ 14 then if part1.toNat < 2 ^ 7 then 5 else 6
      else if part1.toNat < 2 ^ 21 then 7 else 8
  else if part2.toNat < 2 ^ 7 then 9 else 10

def writeVarint64ToArray (value : UInt64) : List UInt8 :=
  let part0 := value.toUInt32
  let part1 := (value >>> 28).toUInt32
  let part2 := (value >>> 56).toUInt32
  let size := sizeOfParts part0 part1 part2
  let target := [moreByte part0 0, moreByte part0 1, moreByte part0 2, moreByte part0 3,
    moreByte part1 0, moreByte part1 1, moreByte part1 2, moreByte part1 3,
    moreByte part2 0, moreByte part2 1]
  (target.take size).modify (size - 1) (· &&& 0x7F)

/-- An `int32` that is negative is written as the `uint64` it is converted to. -/
def writeVarint32SignExtendedToArray (value : Int32) : List UInt8 :=
  if value < 0 then writeVarint64ToArray value.toInt64.toUInt64
  else writeVarint32ToArray value.toUInt32

def writeTagToArray (value : UInt32) : List UInt8 :=
  if value.toNat < 2 ^ 7 then [value.toUInt8]
  else if value.toNat < 2 ^ 14 then [(value ||| 0x80).toUInt8, (value >>> 7).toUInt8]
  else writeVarint32FallbackToArray value

def writeLittleEndian32ToArray (value : UInt32) : List UInt8 := IntLayout.little.toBytes value

def writeLittleEndian64ToArray (value : UInt64) : List UInt8 :=
  IntLayout.little.toBytes value.toUInt32 ++ IntLayout.little.toBytes (value >>> 32).toUInt32

/-- `WriteStringWithSizeToArray`; the size is cut down to a `uint32`. -/
def writeStringWithSizeToArray (str : List UInt8) : List UInt8 :=
  writeVarint32ToArray (UInt32.ofNat str.length) ++ str

def varintSize32 (value : UInt32) : ℕ :=
  if value.toNat < 2 ^ 7 then 1
  else if value.toNat < 2 ^ 14 then 2
  else if value.toNat < 2 ^ 21 then 3
  else if value.toNat < 2 ^ 28 then 4
  else 5

def varintSize64 (value : UInt64) : ℕ :=
  if value.toNat < 2 ^ 35 then
    if value.toNat < 2 ^ 7 then 1
    else if value.toNat < 2 ^ 14 then 2
    else if value.toNat < 2 ^ 21 then 3
    else if value.toNat < 2 ^ 28 then 4
    else 5
  else
    if value.toNat < 2 ^ 42 then 6
    else if value.toNat < 2 ^ 49 then 7
    else if value.toNat < 2 ^ 56 then 8
    else if value.toNat < 2 ^ 63 then 9
    else 10

def varintSize32SignExtended (value : Int32) : ℕ :=
  if value < 0 then 10 else varintSize32 value.toUInt32

end CodedOutputStream

namespace CodedOutputStream

/-! ## The groups of a number -/

theorem or_128 : ∀ n < 256, n ||| 128 = n % 128 + 128 := by decide +kernel

theorem moreByte_eq (value : UInt32) {k : ℕ} (hk : k < 5) :
    moreByte value (UInt32.ofNat k) = Varint.more value.toNat k := by
  have hshift : (7 * UInt32.ofNat k).toNat = 7 * k := by
    rw [UInt32.toNat_mul, UInt32.toNat_ofNat_of_lt' (hk.trans (by decide)),
      show (7 : UInt32).toNat = 7 from rfl]
    omega
  have hdiv : value.toNat >>> (7 * k) = value.toNat / 128 ^ k := by
    rw [Nat.shiftRight_eq_div_pow, pow_mul]
    rfl
  apply UInt8.toNat_inj.mp
  rw [moreByte, Varint.more, Varint.toNat_more, UInt32.toNat_toUInt8, UInt32.toNat_or,
    UInt32.toNat_shiftRight, hshift, Nat.mod_eq_of_lt (show 7 * k < 32 by omega), hdiv,
    Nat.or_mod_two_pow, show (0x80 : UInt32).toNat % 2 ^ 8 = 128 from rfl,
    or_128 _ (Nat.mod_lt _ (by decide))]
  omega

theorem and_127 (n k : ℕ) : Varint.more n k &&& 0x7F = UInt8.ofNat (n / 128 ^ k % 128) := by
  apply UInt8.toNat_inj.mp
  rw [UInt8.toNat_and, Varint.more, Varint.toNat_more,
    show (0x7F : UInt8).toNat = 2 ^ 7 - 1 from rfl, Nat.and_two_pow_sub_one_eq_mod,
    UInt8.toNat_ofNat']
  omega

/-- The last group of a number. -/
theorem and_127_last {n k : ℕ} (h : n < 128 ^ (k + 1)) :
    Varint.more n k &&& 0x7F = UInt8.ofNat (n / 128 ^ k) := by
  have hlast : n / 128 ^ k < 128 := by
    rw [Nat.div_lt_iff_lt_mul (Nat.pow_pos (by decide)), Nat.mul_comm, ← pow_succ]
    exact h
  rw [and_127, Nat.mod_eq_of_lt hlast]

/-! ## 32 bits -/

theorem writeVarint32FallbackToArray_eq (value : UInt32) :
    writeVarint32FallbackToArray value = Varint.encode value.toNat := by
  have hlt := value.toNat_lt
  have h0 : moreByte value 0 = _ := moreByte_eq value (show 0 < 5 by decide)
  have h1 : moreByte value 1 = _ := moreByte_eq value (show 1 < 5 by decide)
  have h2 : moreByte value 2 = _ := moreByte_eq value (show 2 < 5 by decide)
  have h3 : moreByte value 3 = _ := moreByte_eq value (show 3 < 5 by decide)
  rw [writeVarint32FallbackToArray]
  simp only [lastByte, h0, h1, h2, h3]
  split
  · split
    · split
      · split
        · rw [Varint.encode_eq (k := 4) (by omega) (by omega)]
          have hlast : (value >>> 28).toUInt8 = UInt8.ofNat (value.toNat / 128 ^ 4) := by
            apply UInt8.toNat_inj.mp
            rw [UInt32.toNat_toUInt8, UInt32.toNat_shiftRight, UInt8.toNat_ofNat',
              Nat.shiftRight_eq_div_pow]
            rfl
          rw [hlast]
          rfl
        · rw [Varint.encode_eq (k := 3) (by omega) (by omega), and_127_last (by omega)]
          rfl
      · rw [Varint.encode_eq (k := 2) (by omega) (by omega), and_127_last (by omega)]
        rfl
    · rw [Varint.encode_eq (k := 1) (by omega) (by omega), and_127_last (by omega)]
      rfl
  · rw [Varint.encode_eq (k := 0) (by omega) (by omega), and_127_last (by omega)]
    rfl

theorem toUInt8_of_lt {value : UInt32} (h : value.toNat < 128) :
    [value.toUInt8] = Varint.encode value.toNat := by
  rw [Varint.encode_of_lt h]
  rfl

/-- **A `uint32` is written in its shortest encoding.** -/
theorem writeVarint32ToArray_eq (value : UInt32) :
    writeVarint32ToArray value = Varint.encode value.toNat := by
  rw [writeVarint32ToArray]
  split
  · rename_i hlt
    exact toUInt8_of_lt hlt
  · exact writeVarint32FallbackToArray_eq value

/-- **A tag is written as a number.** -/
theorem writeTagToArray_eq (value : UInt32) :
    writeTagToArray value = Varint.encode value.toNat := by
  rw [writeTagToArray]
  split
  · rename_i hlt
    exact toUInt8_of_lt hlt
  · split
    · rename_i hle hlt
      have h0 : moreByte value 0 = _ := moreByte_eq value (show 0 < 5 by decide)
      have hfirst : (value ||| 0x80).toUInt8 = moreByte value 0 := by
        rw [moreByte, UInt32.mul_zero, UInt32.shiftRight_zero]
      have hsecond : (value >>> 7).toUInt8 = UInt8.ofNat (value.toNat / 128 ^ 1) := by
        apply UInt8.toNat_inj.mp
        rw [UInt32.toNat_toUInt8, UInt32.toNat_shiftRight, UInt8.toNat_ofNat',
          Nat.shiftRight_eq_div_pow]
        rfl
      rw [Varint.encode_eq (k := 1) (by omega) (by omega), hfirst, h0, hsecond]
      rfl
    · exact writeVarint32FallbackToArray_eq value

theorem varintSize32_eq (value : UInt32) :
    varintSize32 value = (writeVarint32ToArray value).length := by
  have hlt := value.toNat_lt
  rw [varintSize32, writeVarint32ToArray_eq]
  split
  · rw [Varint.length_encode (k := 0) (by omega) (by omega)]
  · split
    · rw [Varint.length_encode (k := 1) (by omega) (by omega)]
    · split
      · rw [Varint.length_encode (k := 2) (by omega) (by omega)]
      · split
        · rw [Varint.length_encode (k := 3) (by omega) (by omega)]
        · rw [Varint.length_encode (k := 4) (by omega) (by omega)]

/-! ## 64 bits -/

/-- A part of 32 bits holds four groups, and the beginning of the next. -/
theorem more_part (n i : ℕ) {k : ℕ} (hk : k < 4) :
    Varint.more (n / 128 ^ i % 2 ^ 32) k = Varint.more n (i + k) := by
  rw [Varint.more, Varint.more, pow_add, ← Nat.div_div_eq_div_mul]
  congr 2
  interval_cases k <;> omega

theorem part_toNat (value : UInt64) {i : ℕ} (hi : i < 9) :
    (value >>> UInt64.ofNat (7 * i)).toUInt32.toNat = value.toNat / 128 ^ i % 2 ^ 32 := by
  rw [UInt64.toNat_toUInt32, UInt64.toNat_shiftRight,
    UInt64.toNat_ofNat_of_lt' (show 7 * i < 2 ^ 64 by omega),
    Nat.mod_eq_of_lt (show 7 * i < 64 by omega), Nat.shiftRight_eq_div_pow, pow_mul]
  rfl

theorem part_byte {n i k : ℕ} {part : UInt32} (hpart : part.toNat = n / 128 ^ i % 2 ^ 32)
    (hk : k < 4) : moreByte part (UInt32.ofNat k) = Varint.more n (i + k) := by
  rw [moreByte_eq part (by omega), hpart, more_part _ _ hk]

/-- The search tree finds the last group that is not zero. -/
theorem sizeOfParts_spec {n : ℕ} {part0 part1 part2 : UInt32} (hn : n < 2 ^ 64)
    (h0 : part0.toNat = n / 128 ^ 0 % 2 ^ 32) (h1 : part1.toNat = n / 128 ^ 4 % 2 ^ 32)
    (h2 : part2.toNat = n / 128 ^ 8 % 2 ^ 32) :
    ∃ k < 10, sizeOfParts part0 part1 part2 = k + 1 ∧ (k = 0 ∨ 128 ^ k ≤ n) ∧
      n < 128 ^ (k + 1) := by
  have hzero : ∀ part : UInt32, part = 0 ↔ part.toNat = 0 := by
    intro part
    rw [← UInt32.toNat_inj, UInt32.toNat_zero]
  simp only [sizeOfParts, hzero]
  split
  · split
    · split
      · split
        · exact ⟨0, by decide, rfl, by omega, by omega⟩
        · exact ⟨1, by decide, rfl, by omega, by omega⟩
      · split
        · exact ⟨2, by decide, rfl, by omega, by omega⟩
        · exact ⟨3, by decide, rfl, by omega, by omega⟩
    · split
      · split
        · exact ⟨4, by decide, rfl, by omega, by omega⟩
        · exact ⟨5, by decide, rfl, by omega, by omega⟩
      · split
        · exact ⟨6, by decide, rfl, by omega, by omega⟩
        · exact ⟨7, by decide, rfl, by omega, by omega⟩
  · split
    · exact ⟨8, by decide, rfl, by omega, by omega⟩
    · exact ⟨9, by decide, rfl, by omega, by omega⟩

theorem modify_last {α : Type} (f : α → α) (xs : List α) (x : α) :
    (xs ++ [x]).modify xs.length f = xs ++ [f x] := by
  induction xs with
  | nil => rfl
  | cons y ys ih => exact congrArg (y :: ·) ih

/-- The bytes up to the last group, which is corrected. -/
theorem take_modify {n k : ℕ} (hk : k < 10) (h : k = 0 ∨ 128 ^ k ≤ n) (hlt : n < 128 ^ (k + 1)) :
    (((List.range 10).map (Varint.more n)).take (k + 1)).modify k (· &&& 0x7F) =
      Varint.encode n := by
  have htake : ((List.range 10).map (Varint.more n)).take (k + 1) =
      (List.range k).map (Varint.more n) ++ [Varint.more n k] := by
    rw [← List.map_take, List.take_range, Nat.min_eq_left hk, List.range_succ, List.map_append]
    rfl
  have hmodify := modify_last (· &&& 0x7F) ((List.range k).map (Varint.more n)) (Varint.more n k)
  rw [List.length_map, List.length_range] at hmodify
  rw [htake, hmodify, Varint.encode_eq h hlt, ← and_127_last hlt]

/-- All ten groups, from the three parts. -/
theorem target_eq {n : ℕ} {part0 part1 part2 : UInt32} (h0 : part0.toNat = n / 128 ^ 0 % 2 ^ 32)
    (h1 : part1.toNat = n / 128 ^ 4 % 2 ^ 32) (h2 : part2.toNat = n / 128 ^ 8 % 2 ^ 32) :
    [moreByte part0 0, moreByte part0 1, moreByte part0 2, moreByte part0 3,
      moreByte part1 0, moreByte part1 1, moreByte part1 2, moreByte part1 3,
      moreByte part2 0, moreByte part2 1] = (List.range 10).map (Varint.more n) := by
  have hbytes : ∀ {part : UInt32} {i : ℕ}, part.toNat = n / 128 ^ i % 2 ^ 32 →
      moreByte part 0 = Varint.more n i ∧ moreByte part 1 = Varint.more n (i + 1) ∧
        moreByte part 2 = Varint.more n (i + 2) ∧ moreByte part 3 = Varint.more n (i + 3) := by
    intro part i hpart
    exact ⟨part_byte hpart (show 0 < 4 by decide), part_byte hpart (show 1 < 4 by decide),
      part_byte hpart (show 2 < 4 by decide), part_byte hpart (show 3 < 4 by decide)⟩
  obtain ⟨b0, b1, b2, b3⟩ := hbytes h0
  obtain ⟨b4, b5, b6, b7⟩ := hbytes h1
  obtain ⟨b8, b9, -, -⟩ := hbytes h2
  rw [b0, b1, b2, b3, b4, b5, b6, b7, b8, b9]
  rfl

/-- **A `uint64` is written in its shortest encoding.** -/
theorem writeVarint64ToArray_eq (value : UInt64) :
    writeVarint64ToArray value = Varint.encode value.toNat := by
  have h0 : value.toUInt32.toNat = value.toNat / 128 ^ 0 % 2 ^ 32 := by
    rw [pow_zero, Nat.div_one, UInt64.toNat_toUInt32]
  have h28 : (28 : UInt64) = UInt64.ofNat (7 * 4) := rfl
  have h56 : (56 : UInt64) = UInt64.ofNat (7 * 8) := rfl
  have h1 := part_toNat value (show 4 < 9 by decide)
  have h2 := part_toNat value (show 8 < 9 by decide)
  rw [← h28] at h1
  rw [← h56] at h2
  obtain ⟨k, hk, hsize, hle, hlt⟩ := sizeOfParts_spec value.toNat_lt h0 h1 h2
  rw [writeVarint64ToArray]
  simp only [target_eq h0 h1 h2, hsize, Nat.add_sub_cancel]
  exact take_modify hk hle hlt

theorem varintSize64_eq (value : UInt64) :
    varintSize64 value = (writeVarint64ToArray value).length := by
  have hlt := value.toNat_lt
  rw [varintSize64, writeVarint64ToArray_eq]
  split
  · split
    · rw [Varint.length_encode (k := 0) (by omega) (by omega)]
    · split
      · rw [Varint.length_encode (k := 1) (by omega) (by omega)]
      · split
        · rw [Varint.length_encode (k := 2) (by omega) (by omega)]
        · split
          · rw [Varint.length_encode (k := 3) (by omega) (by omega)]
          · rw [Varint.length_encode (k := 4) (by omega) (by omega)]
  · split
    · rw [Varint.length_encode (k := 5) (by omega) (by omega)]
    · split
      · rw [Varint.length_encode (k := 6) (by omega) (by omega)]
      · split
        · rw [Varint.length_encode (k := 7) (by omega) (by omega)]
        · split
          · rw [Varint.length_encode (k := 8) (by omega) (by omega)]
          · rw [Varint.length_encode (k := 9) (by omega) (by omega)]

/-! ## Signed numbers and strings -/

theorem toNat_of_neg {value : Int64} (h : value.toInt < 0) : 2 ^ 63 ≤ value.toUInt64.toNat := by
  have hint : value.toInt = if 2 * value.toUInt64.toNat < 2 ^ 64 then (value.toUInt64.toNat : ℤ)
      else value.toUInt64.toNat - (2 ^ 64 : ℕ) := BitVec.toInt_eq_toNat_cond value.toBitVec
  split at hint <;> omega

theorem toNat_toUInt64_of_le {value : Int32} (h : 0 ≤ value) :
    value.toInt64.toUInt64.toNat = value.toUInt32.toNat := by
  have hlong : 0 ≤ value.toInt64 := by
    rw [Int64.le_iff_toInt_le, Int32.toInt_toInt64]
    exact Int32.le_iff_toInt_le.mp h
  rw [Int64.toNat_toUInt64_of_le hlong, Int32.toNat_toUInt32_of_le h, Int32.toNatClampNeg_toInt64]

theorem toInt_neg {value : Int32} (h : value < 0) : value.toInt64.toInt < 0 := by
  rw [Int32.toInt_toInt64]
  exact Int32.lt_iff_toInt_lt.mp h

/-- **An `int32` is written** as the `uint64` with the same sign bits. -/
theorem writeVarint32SignExtendedToArray_eq (value : Int32) :
    writeVarint32SignExtendedToArray value = Varint.encode value.toInt64.toUInt64.toNat := by
  rw [writeVarint32SignExtendedToArray]
  split
  · exact writeVarint64ToArray_eq _
  · rename_i hneg
    rw [writeVarint32ToArray_eq, toNat_toUInt64_of_le (Int32.not_lt.mp hneg)]

theorem varintSize32SignExtended_eq (value : Int32) :
    varintSize32SignExtended value = (writeVarint32SignExtendedToArray value).length := by
  rw [varintSize32SignExtended, writeVarint32SignExtendedToArray]
  split
  · rename_i hneg
    have hle := toNat_of_neg (toInt_neg hneg)
    have hlt := value.toInt64.toUInt64.toNat_lt
    rw [writeVarint64ToArray_eq, Varint.length_encode (k := 9) (by omega) (by omega)]
  · exact varintSize32_eq _

/-- The `int32` is what the lower half says. -/
theorem toUInt32_toInt64 (value : Int32) :
    UInt32.ofNat value.toInt64.toUInt64.toNat = value.toUInt32 := by
  apply UInt32.toBitVec_inj.mp
  have hlow : (UInt32.ofNat value.toInt64.toUInt64.toNat).toBitVec =
      (value.toBitVec.signExtend 64).setWidth 32 := BitVec.ofNat_toNat _ _
  rw [hlow, Int32.toBitVec_toUInt32]
  ext i hi
  rw [BitVec.getElem_setWidth, BitVec.getLsbD_signExtend]
  simp [hi, hi.trans (show 32 < 64 by decide), BitVec.getLsbD_eq_getElem]

/-- **A string is written** behind its size. -/
theorem writeStringWithSizeToArray_eq {str : List UInt8} (h : str.length < 2 ^ 32) :
    writeStringWithSizeToArray str = Varint.encode str.length ++ str := by
  rw [writeStringWithSizeToArray, writeVarint32ToArray_eq, UInt32.toNat_ofNat_of_lt' h]

end CodedOutputStream

end SmartServer
