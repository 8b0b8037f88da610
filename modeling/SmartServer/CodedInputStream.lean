import SmartServer.StructType
import SmartServer.Lib.Varint

/-!
# `CodedInputStream` over an array

What `ParseFromString` uses of `coded_stream.h` and `coded_stream.cc`: an input stream over one
array, without further input behind it and without pushed limits.

**The fast paths** (`paths_agree`). Where ten bytes are left, or the last
byte of the array ends a number, a varint is read without looking at the end of the array. It is
never read beyond, and what is read is what the slow path reads, the number that
`Varint.decode` finds at the front.

**Tags** (`readTag_spec`). `0` stands for the end of the array, for a number that is not there, and
for the tag `0`; at the end `legitimate_message_end_` says whether the total limit was kept.

**Cutoff** (`readTagWithCutoff_spec`). Two bytes that encode the tag `0` may be said to be below
the cutoff. Everywhere else `ReadTagWithCutoff` is `ReadTag` and a comparison.
-/

namespace SmartServer

def kMaxVarintBytes : ℕ := 10

def kDefaultTotalBytesLimit : ℕ := 64 * 2 ^ 20

/-- A stream over an array of bytes. -/
structure CodedInputStream where
  /-- From `buffer_` to `buffer_end_`. -/
  buffer_ : List UInt8
  total_bytes_read_ : ℕ
  current_limit_ : ℕ
  last_tag_ : UInt32
  legitimate_message_end_ : Bool
deriving DecidableEq

/-! ## Numbers in an unrolled loop -/

/-- `!(b & 0x80)`. -/
def endsVarint (b : UInt8) : Bool := b &&& 0x80 = 0

/-- For each shift, `b = *(ptr++); result += b << shift; if (!(b & 0x80)) goto done;` and
`result -= 0x80 << shift`: the sum, and whether the number is done. -/
def addBytes : List UInt32 → UInt32 → List UInt8 → Exec (UInt32 × Bool × List UInt8)
  | [], result, ptr => .ok (result, false, ptr)
  | _ :: _, _, [] => .error .outOfBounds
  | shift :: shifts, result, b :: ptr =>
    let result := result + (b.toUInt32 <<< shift)
    if endsVarint b then .ok (result, true, ptr)
    else addBytes shifts (result - ((0x80 : UInt32) <<< shift)) ptr

/-- The bytes of a number that are beyond 32 bits. -/
def skipBytes : ℕ → List UInt8 → Exec (Option (List UInt8))
  | 0, _ => .ok none
  | _ + 1, [] => .error .outOfBounds
  | k + 1, b :: ptr => if endsVarint b then .ok (some ptr) else skipBytes k ptr

/-- The value, and the place behind it; `none` for `NULL`. What is subtracted last is `0`. -/
def readVarint32FromArray (buffer : List UInt8) : Exec (Option (UInt32 × List UInt8)) := do
  let (result, done, ptr) ← addBytes [0, 7, 14, 21, 28] 0 buffer
  if done then pure (some (result, ptr))
  else
    let ptr ← skipBytes (kMaxVarintBytes - 5) ptr
    pure (ptr.map fun ptr => (result, ptr))

/-- The fast path of `ReadVarint64Fallback`, in three parts of 32 bits. -/
def readVarint64FromArray (buffer : List UInt8) : Exec (Option (UInt64 × List UInt8)) := do
  let (part0, done, ptr) ← addBytes [0, 7, 14, 21] 0 buffer
  if done then pure (some (part0.toUInt64, ptr))
  else
    let (part1, done, ptr) ← addBytes [0, 7, 14, 21] 0 ptr
    if done then pure (some (part0.toUInt64 ||| part1.toUInt64 <<< 28, ptr))
    else
      let (part2, done, ptr) ← addBytes [0, 7] 0 ptr
      if done then
        pure (some (part0.toUInt64 ||| part1.toUInt64 <<< 28 ||| part2.toUInt64 <<< 56, ptr))
      else pure none

namespace CodedInputStream

/-! ## Reading -/

/-- `CodedInputStream(buffer, size)`. -/
def ofArray (buffer : List UInt8) : CodedInputStream where
  buffer_ := buffer
  total_bytes_read_ := buffer.length
  current_limit_ := buffer.length
  last_tag_ := 0
  legitimate_message_end_ := false

def bufferSize (s : CodedInputStream) : ℕ := s.buffer_.length

/-- There is no `input_` to take more bytes from. -/
def refresh (s : CodedInputStream) : Exec Bool :=
  if s.total_bytes_read_ = s.current_limit_ then .ok false else .error .nullDeref

/-- `count` bytes have been read of the number, and `left` may still be. -/
def readVarint64Loop (s : CodedInputStream) (result : UInt64) (count : UInt64) :
    ℕ → Exec (Option UInt64 × CodedInputStream)
  | 0 => .ok (none, s)
  | left + 1 =>
    match s.buffer_ with
    | [] => do
      let _ ← s.refresh
      pure (none, s)
    | b :: buffer_ =>
      let result := result ||| (b &&& 0x7F).toUInt64 <<< (7 * count)
      let s := { s with buffer_ }
      if endsVarint b then .ok (some result, s)
      else readVarint64Loop s result (count + 1) left

def readVarint64Slow (s : CodedInputStream) : Exec (Option UInt64 × CodedInputStream) :=
  s.readVarint64Loop 0 0 kMaxVarintBytes

/-- A number is read without crossing the end of the buffer. -/
def isSafe (s : CodedInputStream) : Bool :=
  s.bufferSize ≥ kMaxVarintBytes || s.buffer_.getLast?.any endsVarint

def readVarint64Fallback (s : CodedInputStream) : Exec (Option UInt64 × CodedInputStream) :=
  if s.isSafe then do
    match ← readVarint64FromArray s.buffer_ with
    | none => pure (none, s)
    | some (value, buffer_) => pure (some value, { s with buffer_ })
  else s.readVarint64Slow

def readVarint32Slow (s : CodedInputStream) : Exec (Option UInt32 × CodedInputStream) := do
  let (result, s) ← s.readVarint64Fallback
  pure (result.map UInt64.toUInt32, s)

def readVarint32Fallback (s : CodedInputStream) : Exec (Option UInt32 × CodedInputStream) :=
  if s.isSafe then do
    match ← readVarint32FromArray s.buffer_ with
    | none => pure (none, s)
    | some (value, buffer_) => pure (some value, { s with buffer_ })
  else s.readVarint32Slow

def readVarint32 (s : CodedInputStream) : Exec (Option UInt32 × CodedInputStream) :=
  match s.buffer_ with
  | b :: buffer_ =>
    if b < 0x80 then .ok (some b.toUInt32, { s with buffer_ }) else s.readVarint32Fallback
  | [] => s.readVarint32Fallback

def readVarint64 (s : CodedInputStream) : Exec (Option UInt64 × CodedInputStream) :=
  match s.buffer_ with
  | b :: buffer_ =>
    if b < 0x80 then .ok (some b.toUInt64, { s with buffer_ }) else s.readVarint64Fallback
  | [] => s.readVarint64Fallback

def readTagSlow (s : CodedInputStream) : Exec (UInt32 × CodedInputStream) := do
  if s.buffer_ = [] then
    let _ ← s.refresh
    if s.total_bytes_read_ ≥ kDefaultTotalBytesLimit then
      pure (0, { s with
        legitimate_message_end_ := s.current_limit_ = kDefaultTotalBytesLimit })
    else pure (0, { s with legitimate_message_end_ := true })
  else
    let (result, s) ← s.readVarint64
    match result with
    | none => pure (0, s)
    | some result => pure (result.toUInt32, s)

def readTagFallback (s : CodedInputStream) : Exec (UInt32 × CodedInputStream) :=
  if s.isSafe then do
    match ← readVarint32FromArray s.buffer_ with
    | none => pure (0, s)
    | some (tag, buffer_) => pure (tag, { s with buffer_ })
  else if s.bufferSize = 0 ∧ s.total_bytes_read_ = s.current_limit_ ∧
      s.total_bytes_read_ < kDefaultTotalBytesLimit then
    .ok (0, { s with legitimate_message_end_ := true })
  else s.readTagSlow

def readTag (s : CodedInputStream) : Exec (UInt32 × CodedInputStream) :=
  match s.buffer_ with
  | b :: buffer_ =>
    if b < 0x80 then .ok (b.toUInt32, { s with buffer_, last_tag_ := b.toUInt32 }) else fallback
  | [] => fallback
where
  fallback : Exec (UInt32 × CodedInputStream) := do
    let (last_tag_, s) ← s.readTagFallback
    pure (last_tag_, { s with last_tag_ })

/-- The tag, and whether it is at most `cutoff` and not `0`. -/
def readTagWithCutoff (s : CodedInputStream) (cutoff : UInt32) :
    Exec (UInt32 × Bool × CodedInputStream) :=
  match s.buffer_ with
  | b :: buffer_ =>
    if 0 < b ∧ b < 0x80 then
      let last_tag_ := b.toUInt32
      .ok (last_tag_, cutoff ≥ 0x7F || last_tag_ ≤ cutoff, { s with buffer_, last_tag_ })
    else
      match buffer_ with
      | c :: buffer_ =>
        if cutoff ≥ 0x80 ∧ b &&& ~~~c ≥ 0x80 then
          let last_tag_ := 2 ^ 7 * c.toUInt32 + (b.toUInt32 - 0x80)
          .ok (last_tag_, cutoff.toNat ≥ 0x7F * 2 ^ 7 + 0x7F || last_tag_ ≤ cutoff,
            { s with buffer_, last_tag_ })
        else slow
      | [] => slow
  | [] => slow
where
  slow : Exec (UInt32 × Bool × CodedInputStream) := do
    let (last_tag_, s) ← s.readTagFallback
    pure (last_tag_, last_tag_ - 1 < cutoff, { s with last_tag_ })

def lastTagWas (s : CodedInputStream) (expected : UInt32) : Bool := s.last_tag_ = expected

def consumedEntireMessage (s : CodedInputStream) : Bool := s.legitimate_message_end_

/-- Whether the tag comes next, and then behind it. -/
def expectTag (s : CodedInputStream) (expected : UInt32) : Bool × CodedInputStream :=
  if expected.toNat < 2 ^ 7 then
    match s.buffer_ with
    | b :: buffer_ => if b.toUInt32 = expected then (true, { s with buffer_ }) else (false, s)
    | [] => (false, s)
  else if expected.toNat < 2 ^ 14 then
    match s.buffer_ with
    | b :: c :: buffer_ =>
      if b = (expected ||| 0x80).toUInt8 ∧ c = (expected >>> 7).toUInt8 then
        (true, { s with buffer_ })
      else (false, s)
    | _ => (false, s)
  else (false, s)

def expectAtEnd (s : CodedInputStream) : Bool × CodedInputStream :=
  if s.buffer_ = [] ∧ s.total_bytes_read_ = s.current_limit_ then
    (true, { s with last_tag_ := 0, legitimate_message_end_ := true })
  else (false, s)

/-- `ReadString`; `size` is an `int`. Where the bytes do not suffice, `ReadStringFallback` takes
what there is. -/
def readString (s : CodedInputStream) (size : ℤ) :
    Exec (Option (List UInt8) × CodedInputStream) :=
  if size < 0 then .ok (none, s)
  else if s.bufferSize ≥ size.toNat then
    .ok (some (s.buffer_.take size.toNat), { s with buffer_ := s.buffer_.drop size.toNat })
  else do
    let s := { s with buffer_ := [] }
    let _ ← s.refresh
    pure (none, s)

/-- `ReadRaw`, which `ReadLittleEndian32` and `ReadLittleEndian64` fall back on. -/
def readRaw (s : CodedInputStream) (size : ℕ) : Exec (Option (List UInt8) × CodedInputStream) :=
  if s.bufferSize ≥ size then
    .ok (some (s.buffer_.take size), { s with buffer_ := s.buffer_.drop size })
  else do
    let s := { s with buffer_ := [] }
    let _ ← s.refresh
    pure (none, s)

def readLittleEndian32 (s : CodedInputStream) : Exec (Option UInt32 × CodedInputStream) := do
  let (bytes, s) ← s.readRaw 4
  pure (bytes.map IntLayout.little.ofBytes, s)

/-- Two parts of four bytes. -/
def readLittleEndian64 (s : CodedInputStream) : Exec (Option UInt64 × CodedInputStream) := do
  let (bytes, s) ← s.readRaw 8
  pure (bytes.map fun bytes => (IntLayout.little.ofBytes (bytes.take 4)).toUInt64 |||
    (IntLayout.little.ofBytes (bytes.drop 4)).toUInt64 <<< 32, s)

end CodedInputStream

/-! ## The fast paths -/

theorem endsVarint_iff {b : UInt8} : endsVarint b = true ↔ b.toNat < 128 := by
  have hb := b.toNat_lt
  have hbit : (b &&& 0x80).toNat = b.toNat / 128 * 128 := by
    rw [UInt8.toNat_and, show (0x80 : UInt8).toNat = 2 ^ 7 from rfl, Nat.and_two_pow,
      Nat.testBit_eq_decide_div_mod_eq]
    rcases Nat.lt_or_ge b.toNat 128 with h | h
    · simp [Nat.div_eq_of_lt h]
    · have h1 : b.toNat / 128 = 1 := by omega
      simp [h1]
  rw [endsVarint, decide_eq_true_eq, ← UInt8.toNat_inj, hbit, UInt8.toNat_zero]
  omega

/-- No number is begun in the first `k` bytes that is not ended in the array. -/
def Ends (k : ℕ) (ptr : List UInt8) : Prop := k ≤ ptr.length ∨ ptr.getLast?.any endsVarint = true

theorem lt_length_of_last {k : ℕ} {ptr : List UInt8} (h : ptr.getLast?.any endsVarint = true)
    (hnone : Varint.decode k ptr = none) : k < ptr.length := by
  induction k generalizing ptr with
  | zero =>
    cases ptr with
    | nil => cases h
    | cons b bs => exact Nat.succ_pos _
  | succ k ih =>
    cases ptr with
    | nil => cases h
    | cons b bs =>
      by_cases hb : b.toNat < 128
      · rw [Varint.decode_cons_of_lt hb] at hnone
        cases hnone
      · rw [Varint.decode_cons_of_le (not_lt.mp hb), Option.map_eq_none_iff] at hnone
        apply Nat.succ_lt_succ
        refine ih ?_ hnone
        cases bs with
        | nil => exact absurd (endsVarint_iff.mp h) hb
        | cons c cs => rwa [List.getLast?_cons_cons] at h

theorem Ends.le_length {k : ℕ} {ptr : List UInt8} (h : Ends k ptr)
    (hnone : Varint.decode k ptr = none) : k ≤ ptr.length :=
  h.elim id fun hlast => (lt_length_of_last hlast hnone).le

theorem Ends.drop {i j : ℕ} {ptr : List UInt8} (h : Ends (i + j) ptr)
    (hnone : Varint.decode i ptr = none) : Ends j (ptr.drop i) := by
  rcases h with h | h
  · left
    rw [List.length_drop]
    omega
  · right
    rwa [List.getLast?_drop, if_neg (not_le.mpr (lt_length_of_last h hnone))]

theorem Ends.mono {i j : ℕ} {ptr : List UInt8} (h : Ends j ptr) (hij : i ≤ j) : Ends i ptr :=
  h.imp_left hij.trans

/-- `j` shifts, from the `i`-th on. -/
def shifts (i j : ℕ) : List UInt32 := (List.range' i j).map fun k => UInt32.ofNat (7 * k)

theorem shiftLeft_eq (b : UInt8) {s : ℕ} (hs : s < 32) :
    b.toUInt32 <<< UInt32.ofNat s = UInt32.ofNat (b.toNat * 2 ^ s) := by
  apply UInt32.toNat_inj.mp
  rw [UInt32.toNat_shiftLeft, UInt32.toNat_ofNat_of_lt' (hs.trans (by decide)),
    Nat.mod_eq_of_lt hs, Nat.shiftLeft_eq, UInt32.toNat_ofNat', UInt8.toNat_toUInt32]

/-- What a byte that goes on adds, once its high bit is subtracted. -/
theorem addByte_eq (result : UInt32) {b : UInt8} (hb : 128 ≤ b.toNat) {s : ℕ} (hs : s < 32) :
    result + b.toUInt32 <<< UInt32.ofNat s - (0x80 : UInt32) <<< UInt32.ofNat s =
      result + UInt32.ofNat (b.toNat % 128 * 2 ^ s) := by
  have hlt := b.toNat_lt
  have hhigh : (0x80 : UInt32) <<< UInt32.ofNat s = UInt32.ofNat (128 * 2 ^ s) :=
    shiftLeft_eq 0x80 hs
  have hsplit : b.toNat * 2 ^ s = b.toNat % 128 * 2 ^ s + 128 * 2 ^ s := by
    rw [← Nat.add_mul]
    congr 1
    omega
  rw [shiftLeft_eq b hs, hhigh, hsplit, UInt32.ofNat_add, ← add_assoc, UInt32.add_sub_cancel]

theorem two_pow_shift (i : ℕ) : 2 ^ (7 * (i + 1)) = 128 * 2 ^ (7 * i) := by
  rw [Nat.mul_succ, pow_add]
  exact Nat.mul_comm _ _

theorem addBytes_done {i j : ℕ} {result : UInt32} {ptr rest : List UInt8} {n : ℕ}
    (hij : i + j ≤ 5) (h : Varint.decode j ptr = some (n, rest)) :
    addBytes (shifts i j) result ptr =
      .ok (result + UInt32.ofNat (n * 2 ^ (7 * i)), true, rest) := by
  induction j generalizing i result ptr n with
  | zero => cases h
  | succ j ih =>
    cases ptr with
    | nil => cases h
    | cons b bs =>
      have hs : 7 * i < 32 := by omega
      have hshifts : shifts i (j + 1) = UInt32.ofNat (7 * i) :: shifts (i + 1) j := rfl
      rw [hshifts, addBytes]
      by_cases hb : b.toNat < 128
      · rw [Varint.decode_cons_of_lt hb] at h
        obtain ⟨rfl, rfl⟩ := Prod.mk.inj (Option.some.inj h)
        rw [if_pos (endsVarint_iff.mpr hb), shiftLeft_eq b hs]
      · rw [Varint.decode_cons_of_le (not_lt.mp hb)] at h
        obtain ⟨⟨m, rest'⟩, hm, heq⟩ := Option.map_eq_some_iff.mp h
        obtain ⟨rfl, rfl⟩ := Prod.mk.inj heq
        rw [if_neg (fun hends => hb (endsVarint_iff.mp hends)), ih (by omega) hm,
          addByte_eq result (not_lt.mp hb) hs, add_assoc, ← UInt32.ofNat_add]
        rw [two_pow_shift, add_mul, ← mul_assoc, Nat.mul_comm m 128]

theorem addBytes_more {i j : ℕ} {result : UInt32} {ptr : List UInt8} (hij : i + j ≤ 5)
    (h : Varint.decode j ptr = none) (hlen : j ≤ ptr.length) :
    addBytes (shifts i j) result ptr =
      .ok (result + UInt32.ofNat (Varint.low (ptr.take j) * 2 ^ (7 * i)), false, ptr.drop j) := by
  induction j generalizing i result ptr with
  | zero => simp [shifts, addBytes, Varint.low]
  | succ j ih =>
    cases ptr with
    | nil => cases hlen
    | cons b bs =>
      have hs : 7 * i < 32 := by omega
      have hshifts : shifts i (j + 1) = UInt32.ofNat (7 * i) :: shifts (i + 1) j := rfl
      rw [hshifts, addBytes]
      have hb : ¬ b.toNat < 128 := by
        intro hlt
        rw [Varint.decode_cons_of_lt hlt] at h
        cases h
      rw [Varint.decode_cons_of_le (not_lt.mp hb), Option.map_eq_none_iff] at h
      rw [if_neg (fun hends => hb (endsVarint_iff.mp hends)),
        ih (by omega) h (Nat.le_of_succ_le_succ hlen), addByte_eq result (not_lt.mp hb) hs,
        add_assoc, ← UInt32.ofNat_add]
      rw [two_pow_shift, List.take_succ_cons, Varint.low, add_mul, ← mul_assoc,
        Nat.mul_comm (Varint.low _) 128, List.drop_succ_cons]

theorem skipBytes_eq {k : ℕ} {ptr : List UInt8} (h : Ends k ptr) :
    skipBytes k ptr = .ok ((Varint.decode k ptr).map Prod.snd) := by
  induction k generalizing ptr with
  | zero => rfl
  | succ k ih =>
    cases ptr with
    | nil =>
      have hlen := h.le_length Varint.decode_nil
      cases hlen
    | cons b bs =>
      rw [skipBytes]
      by_cases hb : b.toNat < 128
      · rw [if_pos (endsVarint_iff.mpr hb), Varint.decode_cons_of_lt hb]
        rfl
      · have hone : Varint.decode 1 (b :: bs) = none := by
          rw [Varint.decode_cons_of_le (not_lt.mp hb)]
          rfl
        have hends : Ends k bs := (Nat.add_comm k 1 ▸ h).drop hone
        rw [if_neg (fun hends => hb (endsVarint_iff.mp hends)), ih hends,
          Varint.decode_cons_of_le (not_lt.mp hb), Option.map_map]
        rfl

/-- **The fast path for 32 bits** reads the number at the front, and never beyond the array. -/
theorem readVarint32FromArray_eq {buffer : List UInt8} (h : Ends kMaxVarintBytes buffer) :
    readVarint32FromArray buffer =
      .ok ((Varint.decode kMaxVarintBytes buffer).map fun x => (UInt32.ofNat x.1, x.2)) := by
  have hshifts : shifts 0 5 = [0, 7, 14, 21, 28] := rfl
  have hten : kMaxVarintBytes = 5 + 5 := rfl
  rw [readVarint32FromArray, ← hshifts, hten]
  rw [hten] at h
  cases hfirst : Varint.decode 5 buffer with
  | some x =>
    rw [addBytes_done (by decide) hfirst, Varint.decode_mono 5 hfirst]
    simp [bind, Except.bind, pure, Except.pure]
  | none =>
    have hlen := (h.mono (Nat.le_add_right 5 5)).le_length hfirst
    rw [addBytes_more (by decide) hfirst hlen, Varint.decode_add 5 hfirst hlen]
    simp only [bind, Except.bind, pure, Except.pure, Bool.false_eq_true, if_false,
      skipBytes_eq (h.drop hfirst), Nat.add_sub_cancel_left, Option.map_map]
    congr 2
    funext x
    simp only [Function.comp_apply, Prod.mk.injEq, and_true]
    apply UInt32.toNat_inj.mp
    simp only [UInt32.toNat_add, UInt32.toNat_ofNat', UInt32.toNat_zero]
    omega

/-- Bits that are put behind those there are. -/
theorem or_shiftLeft_eq {a b : UInt64} {s : ℕ} (hs : s < 64) (ha : a.toNat < 2 ^ s) :
    a ||| b <<< UInt64.ofNat s = UInt64.ofNat (a.toNat + b.toNat * 2 ^ s) := by
  have hpow : 2 ^ 64 = 2 ^ (64 - s) * 2 ^ s := by
    rw [← pow_add]
    congr 1
    omega
  have hmod : b.toNat * 2 ^ s % 2 ^ 64 = 2 ^ s * (b.toNat % 2 ^ (64 - s)) := by
    rw [hpow, Nat.mul_mod_mul_right, Nat.mul_comm]
  have hlt : 2 ^ s * (b.toNat % 2 ^ (64 - s)) + a.toNat < 2 ^ 64 := by
    rw [hpow, Nat.mul_comm (2 ^ (64 - s))]
    have hle : b.toNat % 2 ^ (64 - s) + 1 ≤ 2 ^ (64 - s) := Nat.mod_lt _ (Nat.two_pow_pos _)
    calc 2 ^ s * (b.toNat % 2 ^ (64 - s)) + a.toNat
        < 2 ^ s * (b.toNat % 2 ^ (64 - s)) + 2 ^ s := Nat.add_lt_add_left ha _
      _ = 2 ^ s * (b.toNat % 2 ^ (64 - s) + 1) := rfl
      _ ≤ 2 ^ s * 2 ^ (64 - s) := Nat.mul_le_mul_left _ hle
  have hsum : (a.toNat + b.toNat * 2 ^ s) % 2 ^ 64 =
      2 ^ s * (b.toNat % 2 ^ (64 - s)) + a.toNat := by
    rw [Nat.add_mod, hmod, Nat.mod_eq_of_lt a.toNat_lt, Nat.add_comm a.toNat,
      Nat.mod_eq_of_lt hlt]
  apply UInt64.toNat_inj.mp
  rw [UInt64.toNat_or, UInt64.toNat_shiftLeft, UInt64.toNat_ofNat_of_lt' (hs.trans (by decide)),
    Nat.mod_eq_of_lt hs, Nat.shiftLeft_eq, hmod, Nat.or_comm, ← Nat.two_pow_add_eq_or_of_lt ha,
    UInt64.toNat_ofNat', hsum]

/-- A part of the number, as it is put together. -/
theorem toUInt64_part {n : ℕ} (hn : n < 2 ^ 32) :
    (0 + UInt32.ofNat (n * 2 ^ (7 * 0))).toUInt64 = UInt64.ofNat n := by
  rw [Nat.mul_zero, pow_zero, mul_one, zero_add]
  apply UInt64.toNat_inj.mp
  rw [UInt32.toNat_toUInt64, UInt32.toNat_ofNat_of_lt' hn,
    UInt64.toNat_ofNat_of_lt' (hn.trans (by decide))]

/-- **The fast path for 64 bits** reads the number at the front, and never beyond the array. -/
theorem readVarint64FromArray_eq {buffer : List UInt8} (h : Ends kMaxVarintBytes buffer) :
    readVarint64FromArray buffer =
      .ok ((Varint.decode kMaxVarintBytes buffer).map fun x => (UInt64.ofNat x.1, x.2)) := by
  have hfour : shifts 0 4 = [0, 7, 14, 21] := rfl
  have htwo : shifts 0 2 = [0, 7] := rfl
  have hten : kMaxVarintBytes = 4 + 6 := rfl
  rw [readVarint64FromArray, ← hfour, ← htwo, hten]
  rw [hten] at h
  cases hfirst : Varint.decode 4 buffer with
  | some x =>
    obtain ⟨front, -, -, -, hlt⟩ := Varint.decode_inv hfirst
    rw [addBytes_done (by decide) hfirst, Varint.decode_mono 6 hfirst]
    simp only [bind, Except.bind, pure, Except.pure, if_true, Option.map_some]
    rw [toUInt64_part (by omega)]
  | none =>
    have hlen := (h.mono (Nat.le_add_right 4 6)).le_length hfirst
    have h6 : Ends (4 + 2) (buffer.drop 4) := h.drop hfirst
    have hlow := Varint.low_lt (buffer.take 4)
    rw [List.length_take_of_le hlen] at hlow
    rw [addBytes_more (by decide) hfirst hlen, Varint.decode_add 6 hfirst hlen]
    simp only [bind, Except.bind, Bool.false_eq_true, if_false]
    rw [toUInt64_part (by omega)]
    have hpart0 : (UInt64.ofNat (Varint.low (buffer.take 4))).toNat =
        Varint.low (buffer.take 4) := UInt64.toNat_ofNat_of_lt' (show _ < 2 ^ 64 by omega)
    have h28 : (28 : UInt64) = UInt64.ofNat 28 := rfl
    have h56 : (56 : UInt64) = UInt64.ofNat 56 := rfl
    have hpow : 2 ^ 28 = 128 ^ 4 := by norm_num
    have hjoin : ∀ n < 2 ^ 32, (UInt64.ofNat (Varint.low (buffer.take 4)) |||
        UInt64.ofNat n <<< 28) =
          UInt64.ofNat (Varint.low (buffer.take 4) + 128 ^ 4 * n) := by
      intro n hn
      rw [h28, or_shiftLeft_eq (by decide) (by omega), hpart0,
        UInt64.toNat_ofNat_of_lt' (show _ < 2 ^ 64 by omega), Nat.mul_comm n, hpow]
    cases hsecond : Varint.decode 4 (buffer.drop 4) with
    | some x =>
      obtain ⟨-, -, -, -, hlt⟩ := Varint.decode_inv hsecond
      rw [addBytes_done (by decide) hsecond, Varint.decode_mono 2 hsecond]
      simp only [if_true, pure, Except.pure, Option.map_some]
      rw [toUInt64_part (by omega), hjoin _ (by omega)]
    | none =>
      have hlen' := (h6.mono (Nat.le_add_right 4 2)).le_length hsecond
      have h2 : Ends 2 ((buffer.drop 4).drop 4) := h6.drop hsecond
      have hlow' := Varint.low_lt ((buffer.drop 4).take 4)
      rw [List.length_take_of_le hlen'] at hlow'
      rw [addBytes_more (by decide) hsecond hlen', Varint.decode_add 2 hsecond hlen']
      simp only [Bool.false_eq_true, if_false]
      rw [toUInt64_part (by omega), hjoin _ (by omega)]
      cases hthird : Varint.decode 2 ((buffer.drop 4).drop 4) with
      | some x =>
        obtain ⟨-, -, -, -, hlt⟩ := Varint.decode_inv hthird
        rw [addBytes_done (by decide) hthird]
        simp only [if_true, pure, Except.pure, Option.map_some]
        rw [toUInt64_part (by omega), h56, or_shiftLeft_eq (by decide)
          (by rw [UInt64.toNat_ofNat_of_lt' (show _ < 2 ^ 64 by omega)]; omega),
          UInt64.toNat_ofNat_of_lt' (show _ < 2 ^ 64 by omega),
          UInt64.toNat_ofNat_of_lt' (show _ < 2 ^ 64 by omega)]
        congr 4
        omega
      | none =>
        rw [addBytes_more (by decide) hthird (h2.le_length hthird)]
        rfl

/-! ## Reading, in terms of what is at the front -/

/-- The first `size` bytes, and what comes behind them. -/
def rawAt (size : ℕ) (bytes : List UInt8) : Option (List UInt8 × List UInt8) :=
  if size ≤ bytes.length then some (bytes.take size, bytes.drop size) else none

/-- The two parts of eight bytes. -/
def ofBytes64 (bytes : List UInt8) : UInt64 :=
  (IntLayout.little.ofBytes (bytes.take 4)).toUInt64 |||
    (IntLayout.little.ofBytes (bytes.drop 4)).toUInt64 <<< 32

/-- What `p` finds at the front is read, and the stream is behind it then; when it finds nothing,
nothing is read, and the stream may be anywhere. -/
def Reads {α : Type} (s : CodedInputStream) (p : Option (α × List UInt8))
    (r : Exec (Option α × CodedInputStream)) : Prop :=
  ∃ buffer_, r = .ok (p.map Prod.fst, { s with buffer_ }) ∧ ∀ x, p = some x → buffer_ = x.2

namespace CodedInputStream

/-- There is nothing but the array. -/
def Flat (s : CodedInputStream) : Prop := s.total_bytes_read_ = s.current_limit_

variable {s : CodedInputStream}

theorem Flat.refresh (hs : s.Flat) : s.refresh = .ok false := if_pos hs

theorem low7_toNat (b : UInt8) : (b &&& 0x7F).toUInt64.toNat = b.toNat % 128 := by
  rw [UInt8.toNat_toUInt64, UInt8.toNat_and, show (0x7F : UInt8).toNat = 2 ^ 7 - 1 from rfl,
    Nat.and_two_pow_sub_one_eq_mod]

theorem readVarint64Loop_spec (hs : s.Flat) (result : UInt64) (count left : ℕ)
    (hcount : count + left = kMaxVarintBytes) (hresult : result.toNat < 2 ^ (7 * count)) :
    Reads s ((Varint.decode left s.buffer_).map fun x =>
        (UInt64.ofNat (result.toNat + x.1 * 2 ^ (7 * count)), x.2))
      (s.readVarint64Loop result (UInt64.ofNat count) left) := by
  induction left generalizing s result count with
  | zero => exact ⟨s.buffer_, rfl, fun x hx => by cases hx⟩
  | succ left ih =>
    have hlt : 7 * count < 64 := by
      rw [kMaxVarintBytes] at hcount
      omega
    rw [readVarint64Loop]
    cases hbuf : s.buffer_ with
    | nil =>
      simp only [hs.refresh, bind, Except.bind, pure, Except.pure]
      exact ⟨s.buffer_, rfl, fun x hx => by cases hx⟩
    | cons b buffer_ =>
      simp only
      have hshift : 7 * UInt64.ofNat count = UInt64.ofNat (7 * count) := by
        rw [UInt64.ofNat_mul]
        rfl
      rw [hshift, or_shiftLeft_eq hlt hresult, low7_toNat]
      by_cases hb : b.toNat < 128
      · rw [if_pos (endsVarint_iff.mpr hb), Varint.decode_cons_of_lt hb, Nat.mod_eq_of_lt hb]
        refine ⟨buffer_, rfl, ?_⟩
        intro x hx
        obtain rfl := Option.some.inj hx
        rfl
      · have hnext : (UInt64.ofNat (result.toNat + b.toNat % 128 * 2 ^ (7 * count))).toNat <
            2 ^ (7 * (count + 1)) := by
          have hx : b.toNat % 128 * 2 ^ (7 * count) ≤ 127 * 2 ^ (7 * count) :=
            Nat.mul_le_mul_right _ (by omega)
          rw [two_pow_shift, UInt64.toNat_ofNat']
          exact (Nat.mod_le _ _).trans_lt (by omega)
        have hsucc : UInt64.ofNat count + 1 = UInt64.ofNat (count + 1) :=
          (UInt64.ofNat_add count 1).symm
        have hflat : Flat { s with buffer_ } := hs
        have hloop : Reads s _ _ := ih hflat _ (count + 1) (by omega) hnext
        rw [if_neg (fun hends => hb (endsVarint_iff.mp hends)),
          Varint.decode_cons_of_le (not_lt.mp hb), Option.map_map, hsucc]
        convert hloop using 3 with x
        have hvalue : result.toNat + (b.toNat % 128 + 128 * x.1) * 2 ^ (7 * count) =
            result.toNat + b.toNat % 128 * 2 ^ (7 * count) + x.1 * 2 ^ (7 * (count + 1)) := by
          rw [two_pow_shift]
          ring
        simp only [Function.comp_apply]
        rw [hvalue, UInt64.ofNat_add, UInt64.ofNat_add _ (x.1 * _), UInt64.ofNat_toNat]

/-- The number at the front, and what comes behind it. -/
def front (s : CodedInputStream) : Option (ℕ × List UInt8) :=
  Varint.decode kMaxVarintBytes s.buffer_

theorem readVarint64Slow_spec (hs : s.Flat) :
    Reads s (s.front.map fun x => (UInt64.ofNat x.1, x.2)) s.readVarint64Slow := by
  have hloop := readVarint64Loop_spec hs 0 0 kMaxVarintBytes (Nat.zero_add _) Nat.one_pos
  simp only [UInt64.toNat_zero, Nat.mul_zero, pow_zero, mul_one, zero_add] at hloop
  exact hloop

theorem isSafe_iff : s.isSafe = true ↔ Ends kMaxVarintBytes s.buffer_ := by
  rw [isSafe, Bool.or_eq_true, decide_eq_true_eq]
  rfl

theorem reads_none {α : Type} : Reads s (none : Option (α × List UInt8)) (.ok (none, s)) :=
  ⟨s.buffer_, rfl, fun x hx => by cases hx⟩

theorem reads_some {α : Type} (x : α) (rest : List UInt8) :
    Reads s (some (x, rest)) (.ok (some x, { s with buffer_ := rest })) := by
  refine ⟨rest, rfl, ?_⟩
  intro y hy
  obtain rfl := Option.some.inj hy
  rfl

theorem readVarint64Fallback_spec (hs : s.Flat) :
    Reads s (s.front.map fun x => (UInt64.ofNat x.1, x.2)) s.readVarint64Fallback := by
  rw [readVarint64Fallback]
  by_cases hsafe : s.isSafe = true
  · rw [if_pos hsafe, readVarint64FromArray_eq (isSafe_iff.mp hsafe), front]
    cases Varint.decode kMaxVarintBytes s.buffer_ with
    | none => exact reads_none
    | some x => exact reads_some _ _
  · rw [if_neg hsafe]
    exact readVarint64Slow_spec hs

theorem readVarint32Slow_spec (hs : s.Flat) :
    Reads s (s.front.map fun x => (UInt32.ofNat x.1, x.2)) s.readVarint32Slow := by
  obtain ⟨buffer_, hread, hrest⟩ := readVarint64Fallback_spec hs
  refine ⟨buffer_, ?_, ?_⟩
  · rw [readVarint32Slow, hread]
    cases s.front with
    | none => rfl
    | some x =>
      simp only [bind, Except.bind, pure, Except.pure, Option.map_some]
      rw [UInt64.toUInt32_ofNat']
  · intro x hx
    obtain ⟨y, hy, rfl⟩ := Option.map_eq_some_iff.mp hx
    exact hrest (UInt64.ofNat y.1, y.2) (by rw [hy]; rfl)

theorem readVarint32Fallback_spec (hs : s.Flat) :
    Reads s (s.front.map fun x => (UInt32.ofNat x.1, x.2)) s.readVarint32Fallback := by
  rw [readVarint32Fallback]
  by_cases hsafe : s.isSafe = true
  · rw [if_pos hsafe, readVarint32FromArray_eq (isSafe_iff.mp hsafe), front]
    cases Varint.decode kMaxVarintBytes s.buffer_ with
    | none => exact reads_none
    | some x => exact reads_some _ _
  · rw [if_neg hsafe]
    exact readVarint32Slow_spec hs

theorem front_of_lt {b : UInt8} {rest : List UInt8} (hbuf : s.buffer_ = b :: rest)
    (hb : b.toNat < 128) : s.front = some (b.toNat, rest) := by
  rw [front, hbuf]
  exact Varint.decode_cons_of_lt hb

/-- **A `uint64` is read**, whichever path is taken. -/
theorem readVarint64_spec (hs : s.Flat) :
    Reads s (s.front.map fun x => (UInt64.ofNat x.1, x.2)) s.readVarint64 := by
  rw [readVarint64]
  cases hbuf : s.buffer_ with
  | nil => exact readVarint64Fallback_spec hs
  | cons b rest =>
    by_cases hb : b < 0x80
    · simp only [if_pos hb, front_of_lt hbuf hb, Option.map_some]
      rw [UInt64.ofNat_uInt8ToNat]
      exact reads_some _ _
    · simp only [if_neg hb]
      exact readVarint64Fallback_spec hs

/-- **A `uint32` is read**, whichever path is taken. -/
theorem readVarint32_spec (hs : s.Flat) :
    Reads s (s.front.map fun x => (UInt32.ofNat x.1, x.2)) s.readVarint32 := by
  rw [readVarint32]
  cases hbuf : s.buffer_ with
  | nil => exact readVarint32Fallback_spec hs
  | cons b rest =>
    by_cases hb : b < 0x80
    · simp only [if_pos hb, front_of_lt hbuf hb, Option.map_some]
      rw [UInt32.ofNat_uInt8ToNat]
      exact reads_some _ _
    · simp only [if_neg hb]
      exact readVarint32Fallback_spec hs

/-- **All paths agree.** The loop of `ReadVarint64Slow` finds the number that `ReadVarint64` finds,
and `ReadVarint32` its lower half, and all are behind it then. Where a fast path may be taken, it
finds the same, and reads nothing beyond the array. -/
theorem paths_agree (hs : s.Flat) :
    ∃ r slow wide narrow, s.readVarint64Slow = .ok (r.map Prod.fst, slow) ∧
      s.readVarint64 = .ok (r.map Prod.fst, wide) ∧
      s.readVarint32 = .ok (r.map fun x => x.1.toUInt32, narrow) ∧
      (∀ x, r = some x → slow = { s with buffer_ := x.2 } ∧ wide = { s with buffer_ := x.2 } ∧
        narrow = { s with buffer_ := x.2 }) ∧
      (s.isSafe = true → readVarint64FromArray s.buffer_ = .ok r ∧
        readVarint32FromArray s.buffer_ = .ok (r.map fun x => (x.1.toUInt32, x.2))) := by
  obtain ⟨slow, hslow, hrestSlow⟩ := readVarint64Slow_spec hs
  obtain ⟨wide, hwide, hrestWide⟩ := readVarint64_spec hs
  obtain ⟨narrow, hnarrow, hrestNarrow⟩ := readVarint32_spec hs
  have hhalf : (s.front.map fun x => (UInt32.ofNat x.1, x.2)) =
      (s.front.map fun x => (UInt64.ofNat x.1, x.2)).map fun x => (x.1.toUInt32, x.2) := by
    rw [Option.map_map]
    congr 1
    funext x
    simp only [Function.comp_apply, UInt64.toUInt32_ofNat']
  have hfast : s.isSafe = true →
      readVarint64FromArray s.buffer_ = .ok (s.front.map fun x => (UInt64.ofNat x.1, x.2)) ∧
        readVarint32FromArray s.buffer_ = .ok (s.front.map fun x => (UInt32.ofNat x.1, x.2)) := by
    intro hsafe
    have hends := isSafe_iff.mp hsafe
    exact ⟨readVarint64FromArray_eq hends, readVarint32FromArray_eq hends⟩
  rw [hhalf] at hnarrow hrestNarrow hfast
  rw [Option.map_map] at hnarrow
  generalize (s.front.map fun x => (UInt64.ofNat x.1, x.2)) = r at *
  refine ⟨r, _, _, _, hslow, hwide, hnarrow, ?_, hfast⟩
  intro x hx
  obtain rfl := hrestSlow x hx
  obtain rfl := hrestWide x hx
  obtain rfl := hrestNarrow (x.1.toUInt32, x.2) (by rw [hx]; rfl)
  exact ⟨rfl, rfl, rfl⟩

theorem paths_agree_300 :
    ∃ r slow wide narrow, (ofArray [0xAC, 2, 7]).readVarint64Slow = .ok (r.map Prod.fst, slow) ∧
      (ofArray [0xAC, 2, 7]).readVarint64 = .ok (r.map Prod.fst, wide) ∧
      (ofArray [0xAC, 2, 7]).readVarint32 = .ok (r.map fun x => x.1.toUInt32, narrow) ∧
      readVarint64FromArray [0xAC, 2, 7] = .ok r ∧ r = some (300, [7]) := by
  obtain ⟨r, slow, wide, narrow, hslow, hwide, hnarrow, -, hfast⟩ :=
    paths_agree (s := ofArray [0xAC, 2, 7]) rfl
  have hr : readVarint64FromArray [0xAC, 2, 7] = .ok r := (hfast rfl).1
  exact ⟨r, slow, wide, narrow, hslow, hwide, hnarrow, hr, Except.ok.inj (hr.symm.trans rfl)⟩

/-! ## Tags -/

/-- The tag at the front, or `0`. -/
def nextTag (s : CodedInputStream) : UInt32 := (s.front.map fun x => UInt32.ofNat x.1).getD 0

/-- What `legitimate_message_end_` is behind the next tag. -/
def endsHere (s : CodedInputStream) : Bool :=
  if s.buffer_ = [] then decide (s.total_bytes_read_ ≤ kDefaultTotalBytesLimit)
  else s.legitimate_message_end_

theorem front_nil (hbuf : s.buffer_ = []) : s.front = none := by
  rw [front, hbuf]
  rfl

theorem readTagSlow_spec (hs : s.Flat) :
    ∃ buffer_, s.readTagSlow =
        .ok (s.nextTag, { s with buffer_, legitimate_message_end_ := s.endsHere }) ∧
      ∀ x, s.front = some x → buffer_ = x.2 := by
  rw [readTagSlow]
  by_cases hbuf : s.buffer_ = []
  · refine ⟨[], ?_, fun x hx => by rw [front_nil hbuf] at hx; cases hx⟩
    have htotal : s.total_bytes_read_ = s.current_limit_ := hs
    rw [if_pos hbuf, nextTag, front_nil hbuf, endsHere, if_pos hbuf, ← hbuf]
    simp only [hs.refresh, bind, Except.bind, pure, Except.pure, Option.map_none, Option.getD_none]
    split
    · congr 3
      rw [← htotal, decide_eq_decide]
      omega
    · congr 3
      symm
      rw [decide_eq_true_eq]
      omega
  · obtain ⟨buffer_, hread, hrest⟩ := readVarint64_spec hs
    refine ⟨buffer_, ?_, ?_⟩
    · rw [if_neg hbuf, hread, nextTag, endsHere, if_neg hbuf]
      cases hfront : s.front with
      | none => rfl
      | some x =>
        simp only [bind, Except.bind, Option.map_some, pure, Except.pure, Option.getD_some]
        rw [UInt64.toUInt32_ofNat']
    · intro x hx
      exact hrest (UInt64.ofNat x.1, x.2) (by rw [hx]; rfl)

theorem readTagFallback_spec (hs : s.Flat) :
    ∃ buffer_, s.readTagFallback =
        .ok (s.nextTag, { s with buffer_, legitimate_message_end_ := s.endsHere }) ∧
      ∀ x, s.front = some x → buffer_ = x.2 := by
  rw [readTagFallback]
  by_cases hsafe : s.isSafe = true
  · have hbuf : s.buffer_ ≠ [] := by
      intro hnil
      rw [isSafe, bufferSize, hnil] at hsafe
      cases hsafe
    rw [if_pos hsafe, readVarint32FromArray_eq (isSafe_iff.mp hsafe), nextTag, endsHere,
      if_neg hbuf]
    cases hfront : s.front with
    | none =>
      rw [front] at hfront
      rw [hfront]
      exact ⟨s.buffer_, rfl, fun x hx => by cases hx⟩
    | some x =>
      rw [front] at hfront
      rw [hfront]
      refine ⟨x.2, rfl, ?_⟩
      intro y hy
      obtain rfl := Option.some.inj hy
      rfl
  · rw [if_neg hsafe]
    split
    · rename_i hend
      obtain ⟨hsize, htotal, hlimit⟩ := hend
      have hbuf := List.length_eq_zero_iff.mp hsize
      refine ⟨s.buffer_, ?_, fun x hx => by rw [front_nil hbuf] at hx; cases hx⟩
      rw [nextTag, front_nil hbuf, endsHere, if_pos hbuf, decide_eq_true hlimit.le]
      rfl
    · exact readTagSlow_spec hs

theorem nextTag_of_lt {b : UInt8} {rest : List UInt8} (hbuf : s.buffer_ = b :: rest)
    (hb : b.toNat < 128) : s.nextTag = b.toUInt32 := by
  rw [nextTag, front_of_lt hbuf hb, Option.map_some, Option.getD_some, UInt32.ofNat_uInt8ToNat]

theorem endsHere_cons {b : UInt8} {rest : List UInt8} (hbuf : s.buffer_ = b :: rest) :
    s.endsHere = s.legitimate_message_end_ := by
  rw [endsHere, if_neg (by rw [hbuf]; exact List.cons_ne_nil _ _)]

/-- The stream behind the next tag, where the array goes on with `buffer_`. -/
def behindTag (s : CodedInputStream) (buffer_ : List UInt8) : CodedInputStream where
  buffer_ := buffer_
  total_bytes_read_ := s.total_bytes_read_
  current_limit_ := s.current_limit_
  last_tag_ := s.nextTag
  legitimate_message_end_ := s.endsHere

theorem behindTag_cons {b : UInt8} {rest : List UInt8} (hbuf : s.buffer_ = b :: rest)
    (hb : b.toNat < 128) (buffer_ : List UInt8) :
    s.behindTag buffer_ = { s with buffer_, last_tag_ := b.toUInt32 } := by
  rw [behindTag, nextTag_of_lt hbuf hb, endsHere_cons hbuf]

theorem readTag_fallback_spec (hs : s.Flat) :
    ∃ buffer_, readTag.fallback s = .ok (s.nextTag, s.behindTag buffer_) ∧
      ∀ x, s.front = some x → buffer_ = x.2 := by
  obtain ⟨buffer_, hread, hrest⟩ := readTagFallback_spec hs
  refine ⟨buffer_, ?_, hrest⟩
  rw [readTag.fallback, hread]
  rfl

/-- **A tag is read**, whichever path is taken. -/
theorem readTag_spec (hs : s.Flat) :
    ∃ buffer_, s.readTag = .ok (s.nextTag, s.behindTag buffer_) ∧
      ∀ x, s.front = some x → buffer_ = x.2 := by
  rw [readTag]
  cases hbuf : s.buffer_ with
  | nil => exact readTag_fallback_spec hs
  | cons b rest =>
    by_cases hb : b < 0x80
    · refine ⟨rest, ?_, ?_⟩
      · simp only [if_pos hb]
        rw [nextTag_of_lt hbuf hb, behindTag_cons hbuf hb]
      · intro x hx
        rw [front_of_lt hbuf hb] at hx
        obtain rfl := Option.some.inj hx
        rfl
    · simp only [if_neg hb]
      exact readTag_fallback_spec hs

theorem pred_lt_iff {tag cutoff : UInt32} : tag - 1 < cutoff ↔ tag ≠ 0 ∧ tag ≤ cutoff := by
  have htag := tag.toNat_lt
  have hcut := cutoff.toNat_lt
  rw [UInt32.lt_iff_toNat_lt, UInt32.le_iff_toNat_le, ne_eq, ← UInt32.toNat_inj,
    UInt32.toNat_sub, UInt32.toNat_zero, UInt32.toNat_one]
  omega

/-- The tag of two bytes. -/
theorem two_bytes_eq {b : UInt8} (c : UInt8) (hb : 128 ≤ b.toNat) :
    2 ^ 7 * c.toUInt32 + (b.toUInt32 - 0x80) = UInt32.ofNat (b.toNat % 128 + 128 * c.toNat) := by
  have hlt := b.toNat_lt
  have hle : (0x80 : UInt32) ≤ b.toUInt32 := by
    rw [UInt32.le_iff_toNat_le, UInt8.toNat_toUInt32]
    exact hb
  have hsub : (b.toUInt32 - 0x80).toNat = b.toNat - 128 := by
    rw [UInt32.toNat_sub_of_le _ _ hle, UInt8.toNat_toUInt32]
    rfl
  apply UInt32.toNat_inj.mp
  rw [UInt32.toNat_add, UInt32.toNat_mul, hsub, UInt8.toNat_toUInt32, UInt32.toNat_ofNat',
    show ((2 : UInt32) ^ 7).toNat = 128 from rfl]
  omega

theorem le_iff_msb {b : UInt8} : 128 ≤ b.toNat ↔ b.toBitVec.msb = true := by
  rw [BitVec.msb_eq_decide, decide_eq_true_eq]
  rfl

/-- `(buffer_[0] & ~buffer_[1]) >= 0x80`: the first byte goes on, and the second does not. -/
theorem and_not_iff {b c : UInt8} : b &&& ~~~c ≥ 0x80 ↔ 128 ≤ b.toNat ∧ c.toNat < 128 := by
  have hbit : b &&& ~~~c ≥ 0x80 ↔ (b &&& ~~~c).toBitVec.msb = true := le_iff_msb
  rw [hbit, UInt8.toBitVec_and, UInt8.toBitVec_not, BitVec.msb_and, BitVec.msb_not,
    ← not_le (a := 128), le_iff_msb, le_iff_msb]
  simp

/-- A tag, and whether it is there and at most `cutoff`. -/
def compared (cutoff : UInt32) (x : UInt32 × CodedInputStream) : UInt32 × Bool × CodedInputStream :=
  (x.1, decide (x.1 ≠ 0 ∧ x.1 ≤ cutoff), x.2)

theorem slow_eq (s : CodedInputStream) (cutoff : UInt32) :
    readTagWithCutoff.slow s cutoff = (readTag.fallback s).map (compared cutoff) := by
  rw [readTagWithCutoff.slow, readTag.fallback]
  cases s.readTagFallback with
  | error e => rfl
  | ok x =>
    simp only [bind, Except.bind, pure, Except.pure, Except.map, compared, pred_lt_iff]

theorem readTag_of_lt {b : UInt8} {rest : List UInt8} (hbuf : s.buffer_ = b :: rest)
    (hb : b.toNat < 128) :
    s.readTag = .ok (b.toUInt32, { s with buffer_ := rest, last_tag_ := b.toUInt32 }) := by
  have hlt : b < 0x80 := hb
  rw [readTag, hbuf]
  exact if_pos hlt

theorem readTag_of_le {b : UInt8} {rest : List UInt8} (hbuf : s.buffer_ = b :: rest)
    (hb : 128 ≤ b.toNat) : s.readTag = readTag.fallback s := by
  have hle : ¬ b < 0x80 := not_lt.mpr hb
  rw [readTag, hbuf]
  exact if_neg hle

/-- What is known of the number at the front is known of the slow path. -/
theorem fallback_of_front (hs : s.Flat) {n : ℕ} {rest : List UInt8}
    (hfront : s.front = some (n, rest)) :
    readTag.fallback s = .ok (UInt32.ofNat n, s.behindTag rest) := by
  obtain ⟨buffer_, hread, hrest⟩ := readTag_fallback_spec hs
  rw [hread, hrest _ hfront, nextTag, hfront]
  rfl

theorem compare_of_one {b : UInt8} (hpos : 0 < b) (hb : b.toNat < 128) (cutoff : UInt32) :
    (decide (cutoff ≥ 0x7F) || decide (b.toUInt32 ≤ cutoff)) =
      decide (b.toUInt32 ≠ 0 ∧ b.toUInt32 ≤ cutoff) := by
  have hne : b.toUInt32 ≠ 0 := by
    intro heq
    have hzero := congrArg UInt32.toNat heq
    rw [UInt8.toNat_toUInt32] at hzero
    have hlt : 0 < b.toNat := hpos
    rw [hzero] at hlt
    cases hlt
  rw [← Bool.decide_or, decide_eq_decide, and_iff_right hne]
  apply or_iff_right_of_imp
  intro hcut
  have hle : 127 ≤ cutoff.toNat := hcut
  rw [UInt32.le_iff_toNat_le, UInt8.toNat_toUInt32]
  omega

/-- Of two bytes, only those of the tag `0` are taken for a tag that is there. -/
theorem compare_of_two {n : ℕ} (hn : n < 2 ^ 14) (cutoff : UInt32) :
    (decide (cutoff.toNat ≥ 0x7F * 2 ^ 7 + 0x7F) || decide (UInt32.ofNat n ≤ cutoff)) =
      decide (UInt32.ofNat n ≠ 0 ∧ UInt32.ofNat n ≤ cutoff) ↔ n ≠ 0 := by
  have htag : (UInt32.ofNat n).toNat = n := UInt32.toNat_ofNat_of_lt' (show n < 2 ^ 32 by omega)
  rw [← Bool.decide_or, decide_eq_decide, UInt32.le_iff_toNat_le, ne_eq, ← UInt32.toNat_inj, htag,
    UInt32.toNat_zero]
  omega

theorem front_of_two {b c : UInt8} {rest : List UInt8} (hbuf : s.buffer_ = b :: c :: rest)
    (hb : 128 ≤ b.toNat) (hc : c.toNat < 128) :
    s.front = some (b.toNat % 128 + 128 * c.toNat, rest) := by
  rw [front, hbuf, kMaxVarintBytes, Varint.decode_cons_of_le hb, Varint.decode_cons_of_lt hc]
  rfl

theorem padded_iff {b c : UInt8} {rest : List UInt8} :
    (∃ rest', b :: c :: rest = 0x80 :: 0 :: rest') ↔ b = 0x80 ∧ c = 0 := by
  simp

/-- **`ReadTagWithCutoff`** is `ReadTag` and a comparison, but where the tag `0` comes in two bytes
and the cutoff is large. -/
theorem readTagWithCutoff_eq_iff (hs : s.Flat) (cutoff : UInt32) :
    s.readTagWithCutoff cutoff = s.readTag.map (compared cutoff) ↔
      ¬ (0x80 ≤ cutoff ∧ ∃ rest, s.buffer_ = 0x80 :: 0 :: rest) := by
  cases hbuf : s.buffer_ with
  | nil =>
    rw [readTagWithCutoff, readTag, hbuf]
    simp [slow_eq]
  | cons b buffer_ =>
    by_cases hb : b.toNat < 128
    · have hne : ¬ (0x80 ≤ cutoff ∧ ∃ rest, b :: buffer_ = 0x80 :: 0 :: rest) := by
        rintro ⟨-, rest, heq⟩
        obtain rfl := (List.cons.inj heq).1
        exact absurd hb (by decide)
      rw [readTag_of_lt hbuf hb, iff_true_right hne, readTagWithCutoff, hbuf]
      by_cases hpos : 0 < b
      · have hone : 0 < b ∧ b < 0x80 := ⟨hpos, hb⟩
        simp only [if_pos hone, compare_of_one hpos hb]
        rfl
      · have hone : ¬ (0 < b ∧ b < 0x80) := fun h => hpos h.1
        have hslow : readTagWithCutoff.slow s cutoff = .ok (compared cutoff
            (b.toUInt32, { s with buffer_ := buffer_, last_tag_ := b.toUInt32 })) := by
          rw [slow_eq, fallback_of_front hs (front_of_lt hbuf hb), behindTag_cons hbuf hb,
            UInt32.ofNat_uInt8ToNat]
          rfl
        simp only [if_neg hone]
        cases buffer_ with
        | nil => exact hslow
        | cons c rest =>
          have htwo : ¬ (cutoff ≥ 0x80 ∧ b &&& ~~~c ≥ 0x80) :=
            fun h => absurd (and_not_iff.mp h.2).1 (not_le.mpr hb)
          simp only [if_neg htwo]
          exact hslow
    · have hle := not_lt.mp hb
      have hone : ¬ (0 < b ∧ b < 0x80) := fun h => hb h.2
      rw [readTag_of_le hbuf hle, readTagWithCutoff, hbuf]
      simp only [if_neg hone]
      cases buffer_ with
      | nil => simp [slow_eq]
      | cons c rest =>
        by_cases htwo : cutoff ≥ 0x80 ∧ b &&& ~~~c ≥ 0x80
        · have hc := (and_not_iff.mp htwo.2).2
          have hlt := b.toNat_lt
          have hzero : b.toNat % 128 + 128 * c.toNat ≠ 0 ↔
              ¬ ∃ rest', b :: c :: rest = 0x80 :: 0 :: rest' := by
            rw [padded_iff, ← UInt8.toNat_inj, ← UInt8.toNat_inj,
              show (0x80 : UInt8).toNat = 128 from rfl, UInt8.toNat_zero]
            omega
          simp only [if_pos htwo]
          rw [fallback_of_front hs (front_of_two hbuf hle hc), two_bytes_eq c hle,
            not_and, imp_iff_right htwo.1, ← hzero, ← compare_of_two (by omega) cutoff]
          simp only [Except.map, compared, behindTag, nextTag, front_of_two hbuf hle hc,
            endsHere_cons hbuf, Option.map_some, Option.getD_some, Except.ok.injEq,
            Prod.mk.injEq, true_and, and_true]
        · have hne : ¬ (0x80 ≤ cutoff ∧ ∃ rest', b :: c :: rest = 0x80 :: 0 :: rest') := by
            intro hpadded
            obtain ⟨rfl, rfl⟩ := padded_iff.mp hpadded.2
            exact htwo ⟨hpadded.1, by decide⟩
          simp only [if_neg htwo, iff_true_right hne, slow_eq]

/-- **`ReadTagWithCutoff`** reads the tag that `ReadTag` reads. It says that the tag is there and at
most the cutoff when it is so, and also for a tag `0` of two bytes when the cutoff has two. -/
theorem readTagWithCutoff_spec (hs : s.Flat) (cutoff : UInt32) :
    ∃ tag below t, s.readTag = .ok (tag, t) ∧ s.readTagWithCutoff cutoff = .ok (tag, below, t) ∧
      (below = true ↔ tag ≠ 0 ∧ tag ≤ cutoff ∨
        0x80 ≤ cutoff ∧ ∃ rest, s.buffer_ = 0x80 :: 0 :: rest) := by
  obtain ⟨buffer_, hread, -⟩ := readTag_spec hs
  by_cases hpadded : 0x80 ≤ cutoff ∧ ∃ rest, s.buffer_ = 0x80 :: 0 :: rest
  · obtain ⟨hcut, rest, hbuf⟩ := hpadded
    have hfront : s.front = some (0, rest) := front_of_two hbuf (by decide) (by decide)
    have hzero : s.nextTag = 0 := by
      rw [nextTag, hfront]
      rfl
    have htag : s.readTag = .ok (0, s.behindTag rest) :=
      (readTag_of_le hbuf (by decide)).trans (fallback_of_front hs hfront)
    refine ⟨0, true, s.behindTag rest, htag, ?_, ?_⟩
    · have hone : ¬ ((0 : UInt8) < 0x80 ∧ (0x80 : UInt8) < 0x80) := by decide
      have htwo : cutoff ≥ 0x80 ∧ (0x80 : UInt8) &&& ~~~0 ≥ 0x80 := ⟨hcut, by decide⟩
      have hle : (0 : UInt32) ≤ cutoff := UInt32.zero_le
      rw [readTagWithCutoff, hbuf]
      have htag : 2 ^ 7 * (0 : UInt8).toUInt32 + ((0x80 : UInt8).toUInt32 - 0x80) = 0 := by decide
      simp only [if_neg hone, if_pos htwo, htag, decide_eq_true hle, Bool.or_true, behindTag,
        hzero, endsHere_cons hbuf]
    · exact iff_of_true rfl (Or.inr ⟨hcut, rest, hbuf⟩)
  · refine ⟨s.nextTag, decide (s.nextTag ≠ 0 ∧ s.nextTag ≤ cutoff), _, hread, ?_, ?_⟩
    · rw [(readTagWithCutoff_eq_iff hs cutoff).mpr hpadded, hread]
      rfl
    · rw [decide_eq_true_eq, or_iff_left hpadded]

/-- The tag `0` in two bytes, and the largest cutoff of two bytes. -/
theorem readTagWithCutoff_spec_padded :
    ∃ t, (ofArray [0x80, 0, 7]).readTag = .ok (0, t) ∧
      (ofArray [0x80, 0, 7]).readTagWithCutoff 0x3FFF = .ok (0, true, t) := by
  obtain ⟨tag, below, t, hread, hcutoff, hbelow⟩ :=
    readTagWithCutoff_spec (s := ofArray [0x80, 0, 7]) rfl 0x3FFF
  obtain rfl := hbelow.mpr (Or.inr ⟨by decide, [7], rfl⟩)
  obtain rfl : tag = 0 := congrArg Prod.fst (Except.ok.inj (hread.symm.trans rfl))
  exact ⟨t, hread, hcutoff⟩

/-! ## Strings and fixed numbers -/

theorem readRaw_spec (hs : s.Flat) (size : ℕ) :
    Reads s (rawAt size s.buffer_) (s.readRaw size) := by
  rw [readRaw, rawAt]
  by_cases hsize : size ≤ s.buffer_.length
  · rw [if_pos hsize, if_pos (show s.bufferSize ≥ size from hsize)]
    exact reads_some _ _
  · have hflat : Flat { s with buffer_ := [] } := hs
    rw [if_neg hsize, if_neg (show ¬ s.bufferSize ≥ size from hsize)]
    simp only [hflat.refresh, bind, Except.bind, pure, Except.pure]
    exact ⟨[], rfl, fun x hx => by cases hx⟩

/-- **A string is read** when the size is not negative and there are as many bytes. -/
theorem readString_spec (hs : s.Flat) (size : ℤ) :
    Reads s (if size < 0 then none else rawAt size.toNat s.buffer_) (s.readString size) := by
  rw [readString]
  by_cases hneg : size < 0
  · rw [if_pos hneg, if_pos hneg]
    exact reads_none
  · rw [if_neg hneg, if_neg hneg]
    exact readRaw_spec hs size.toNat

theorem readLittleEndian32_spec (hs : s.Flat) :
    Reads s ((rawAt 4 s.buffer_).map fun x => (IntLayout.little.ofBytes x.1, x.2))
      s.readLittleEndian32 := by
  obtain ⟨buffer_, hread, hrest⟩ := readRaw_spec hs 4
  refine ⟨buffer_, ?_, ?_⟩
  · rw [readLittleEndian32, hread]
    cases rawAt 4 s.buffer_ <;> rfl
  · intro x hx
    obtain ⟨y, hy, rfl⟩ := Option.map_eq_some_iff.mp hx
    exact hrest y hy

theorem readLittleEndian64_spec (hs : s.Flat) :
    Reads s ((rawAt 8 s.buffer_).map fun x => (ofBytes64 x.1, x.2)) s.readLittleEndian64 := by
  obtain ⟨buffer_, hread, hrest⟩ := readRaw_spec hs 8
  refine ⟨buffer_, ?_, ?_⟩
  · rw [readLittleEndian64, hread]
    cases rawAt 8 s.buffer_ <;> rfl
  · intro x hx
    obtain ⟨y, hy, rfl⟩ := Option.map_eq_some_iff.mp hx
    exact hrest y hy

end CodedInputStream

end SmartServer
