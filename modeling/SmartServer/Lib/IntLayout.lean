import Mathlib

/-!
# How a platform lays out a 32-bit integer

Copying an `int` byte by byte (`memcpy`) exposes the platform's byte order. A layout is that
order as data: the four bytes of a word, the word of four bytes, and the proof that the two
are inverse. Nothing downstream depends on which layout it is; both ends only have to agree.
-/

/-- The object representation of a 32-bit integer: a bijection between words and four bytes. -/
structure IntLayout where
  toBytes : UInt32 → List UInt8
  ofBytes : List UInt8 → UInt32
  length_toBytes : ∀ w, (toBytes w).length = 4
  ofBytes_toBytes : ∀ w, ofBytes (toBytes w) = w
  toBytes_ofBytes : ∀ bs, bs.length = 4 → toBytes (ofBytes bs) = bs

namespace IntLayout

attribute [simp] length_toBytes ofBytes_toBytes

/-! ## Little endian -/

/-- The `k`-th byte of a word, counted from the least significant one. -/
def byteAt (w : UInt32) (k : ℕ) : UInt8 := UInt8.ofNat (w.toNat / 256 ^ k % 256)

/-- The four bytes, least significant first. -/
def littleToBytes (w : UInt32) : List UInt8 := [byteAt w 0, byteAt w 1, byteAt w 2, byteAt w 3]

def littleOfBytes : List UInt8 → UInt32
  | [a, b, c, d] =>
    UInt32.ofNat (a.toNat + 256 * b.toNat + 256 ^ 2 * c.toNat + 256 ^ 3 * d.toNat)
  | _ => 0

theorem toNat_byteAt (w : UInt32) (k : ℕ) : (byteAt w k).toNat = w.toNat / 256 ^ k % 256 := by
  simp [byteAt]

theorem littleOfBytes_littleToBytes (w : UInt32) : littleOfBytes (littleToBytes w) = w := by
  apply UInt32.toNat_inj.mp
  have hw := w.toNat_lt
  simp only [littleToBytes, littleOfBytes, toNat_byteAt, UInt32.toNat_ofNat']
  omega

theorem littleToBytes_littleOfBytes (bs : List UInt8) (h : bs.length = 4) :
    littleToBytes (littleOfBytes bs) = bs := by
  obtain ⟨a, b, c, d, rfl⟩ := List.length_eq_four.mp h
  have ha := a.toNat_lt
  have hb := b.toNat_lt
  have hc := c.toNat_lt
  have hd := d.toNat_lt
  have hsum : a.toNat + 256 * b.toNat + 256 ^ 2 * c.toNat + 256 ^ 3 * d.toNat < 2 ^ 32 := by
    omega
  simp only [littleToBytes, littleOfBytes, List.cons.injEq, and_true]
  refine ⟨?_, ?_, ?_, ?_⟩ <;> apply UInt8.toNat_inj.mp <;>
    rw [toNat_byteAt, UInt32.toNat_ofNat', Nat.mod_eq_of_lt hsum] <;> omega

def little : IntLayout where
  toBytes := littleToBytes
  ofBytes := littleOfBytes
  length_toBytes _ := rfl
  ofBytes_toBytes := littleOfBytes_littleToBytes
  toBytes_ofBytes := littleToBytes_littleOfBytes

/-! ## Big endian -/

/-- The mirror image of a layout is a layout. -/
def reverse (L : IntLayout) : IntLayout where
  toBytes w := (L.toBytes w).reverse
  ofBytes bs := L.ofBytes bs.reverse
  length_toBytes w := by simp
  ofBytes_toBytes w := by simp
  toBytes_ofBytes bs h := by rw [L.toBytes_ofBytes _ (by simpa using h), List.reverse_reverse]

def big : IntLayout := little.reverse

end IntLayout
