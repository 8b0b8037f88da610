import SmartServer.Lib.IntLayout
import SmartServer.Lib.Framing

/-!
# Packets

The wire format of `structtype.h`: a packet is a head of two 4-byte `int`s, the id and the
length of the message, and that many bytes. `packetCodec` states it as a framing: the head is
refused when the id is outside `0..1024`, and the length is what the reader makes of it, the
`int` converted to `UInt32`, so `-1` announces `2 ^ 32 - 1` bytes.

Everything is over an arbitrary layout `L` of a 4-byte integer; both ends use the same one.
-/

namespace SmartServer

/-- What the code has done when it has no defined behaviour left, or has stopped on an
assertion. -/
inductive Fault
  | outOfBounds
  | nullDeref
  | useAfterFree
  | emptyList
  | assertion
  | diverges
deriving DecidableEq, Repr

abbrev Exec := Except Fault

def PACKETHEADLEN : ℕ := 8

def MAXMESSAGEID : UInt32 := 1024

structure PacketHead where
  packetID : Int32
  packetLen : Int32
deriving DecidableEq

namespace PacketHead

variable (L : IntLayout)

/-- The bytes of a head: no padding between the two fields. -/
def toBytes (head : PacketHead) : List UInt8 :=
  L.toBytes head.packetID.toUInt32 ++ L.toBytes head.packetLen.toUInt32

/-- `memcpy(&packetHead, data, PACKETHEADLEN)`. -/
def ofBytes (data : List UInt8) : PacketHead where
  packetID := (L.ofBytes (data.take 4)).toInt32
  packetLen := (L.ofBytes ((data.drop 4).take 4)).toInt32

/-- The range check of the reader. -/
def refused (head : PacketHead) : Bool := head.packetID > 1024 || head.packetID < 0

@[simp] theorem length_toBytes (head : PacketHead) :
    (head.toBytes L).length = PACKETHEADLEN := by
  simp [toBytes, PACKETHEADLEN]

@[simp] theorem ofBytes_toBytes (head : PacketHead) : ofBytes L (head.toBytes L) = head := by
  have hid : (L.toBytes head.packetID.toUInt32).length = 4 := L.length_toBytes _
  have hlen : (L.toBytes head.packetLen.toUInt32).length = 4 := L.length_toBytes _
  rw [ofBytes, toBytes, List.take_left' hid, List.drop_left' hid,
    List.take_of_length_le hlen.le]
  simp

theorem toBytes_ofBytes {data : List UInt8} (h : data.length = PACKETHEADLEN) :
    (ofBytes L data).toBytes L = data := by
  have h8 : data.length = 8 := h
  simp only [toBytes, ofBytes, UInt32.toUInt32_toInt32]
  rw [L.toBytes_ofBytes _ (by simp [h8]), L.toBytes_ofBytes _ (by simp [h8]),
    List.take_of_length_le (l := data.drop 4) (by simp [h8]), List.take_append_drop]

/-- The reader accepts exactly the ids `0..1024`. -/
theorem refused_toInt32 (id : UInt32) (len : Int32) :
    (mk id.toInt32 len).refused = false ↔ id ≤ MAXMESSAGEID := by
  have hint : id.toInt32.toInt =
      if 2 * id.toNat < 2 ^ 32 then (id.toNat : ℤ) else id.toNat - 2 ^ 32 := by
    rw [← Int32.toInt_toBitVec, UInt32.toBitVec_toInt32, BitVec.toInt_eq_toNat_cond]
    simp
  have hid := id.toNat_lt
  simp only [refused, Bool.or_eq_false_iff, decide_eq_false_iff_not, gt_iff_lt,
    Int32.lt_iff_toInt_lt, hint, UInt32.le_iff_toNat_le,
    show (1024 : Int32).toInt = 1024 from rfl, show (0 : Int32).toInt = 0 from rfl,
    show MAXMESSAGEID.toNat = 1024 from rfl]
  split <;> omega

end PacketHead

/-! ## The packet format as a framing -/

variable (L : IntLayout)

/-- A message as the two ends see it: its id and its bytes. -/
abbrev Message := Framing.Frame UInt8 UInt32

/-- What a head announces: the id, and the length as an unsigned number. -/
def parsePacketHead (data : List UInt8) : Option (UInt32 × ℕ) :=
  let head := PacketHead.ofBytes L data
  if head.refused then none
  else some (head.packetID.toUInt32, head.packetLen.toUInt32.toNat)

def encodePacketHead (id : UInt32) (len : ℕ) : List UInt8 :=
  (PacketHead.mk id.toInt32 (UInt32.ofNat len).toInt32).toBytes L

theorem parse_encodePacketHead {id : UInt32} {len : ℕ} (hid : id ≤ MAXMESSAGEID)
    (hlen : len < 2 ^ 32) :
    parsePacketHead L (encodePacketHead L id len) = some (id, len) := by
  have hok := (PacketHead.refused_toInt32 id (UInt32.ofNat len).toInt32).mpr hid
  rw [parsePacketHead, encodePacketHead, PacketHead.ofBytes_toBytes]
  simp only [hok, Bool.false_eq_true, if_false, UInt32.toUInt32_toInt32,
    UInt32.toNat_ofNat_of_lt' hlen]

theorem encode_parsePacketHead {data : List UInt8} {id : UInt32} {len : ℕ}
    (h : data.length = PACKETHEADLEN) (hp : parsePacketHead L data = some (id, len)) :
    encodePacketHead L id len = data := by
  simp only [parsePacketHead] at hp
  split at hp
  · cases hp
  · obtain ⟨rfl, rfl⟩ : _ ∧ _ := by simpa using hp
    simpa [encodePacketHead] using PacketHead.toBytes_ofBytes L h

theorem valid_parsePacketHead {data : List UInt8} {id : UInt32} {len : ℕ}
    (hp : parsePacketHead L data = some (id, len)) : id ≤ MAXMESSAGEID ∧ len < 2 ^ 32 := by
  simp only [parsePacketHead] at hp
  split at hp
  · cases hp
  · rename_i hok
    obtain ⟨rfl, rfl⟩ : _ ∧ _ := by simpa using hp
    refine ⟨?_, UInt32.toNat_lt _⟩
    rw [← PacketHead.refused_toInt32 _ 0]
    simpa [PacketHead.refused] using hok

/-- **The packet format.** -/
def packetCodec : Framing.Codec UInt8 UInt32 where
  headLen := PACKETHEADLEN
  headLen_pos := by decide
  parseHead := parsePacketHead L
  encodeHead := encodePacketHead L
  Valid id len := id ≤ MAXMESSAGEID ∧ len < 2 ^ 32
  length_encodeHead _ _ := PacketHead.length_toBytes L _
  parse_encode _ _ h := parse_encodePacketHead L h.1 h.2
  encode_parse _ _ _ h hp := encode_parsePacketHead L h hp
  valid_parse _ _ _ _ hp := valid_parsePacketHead L hp

@[simp] theorem headLen_packetCodec : (packetCodec L).headLen = PACKETHEADLEN := rfl

@[simp] theorem parseHead_packetCodec (hd : List UInt8) :
    (packetCodec L).parseHead hd = parsePacketHead L hd := rfl

/-- The decoder on the bytes of a head. -/
theorem feed_packetHead {hd : List UInt8} (h : hd.length = PACKETHEADLEN) :
    (packetCodec L).feed (.head []) hd =
      if (PacketHead.ofBytes L hd).refused then ([], .refused)
      else Framing.Format.accept (PacketHead.ofBytes L hd).packetID.toUInt32
        (PacketHead.ofBytes L hd).packetLen.toUInt32.toNat := by
  have hne : hd ≠ [] := by
    rintro rfl
    exact absurd h (by decide)
  rw [Framing.Format.feed_head (packetCodec L).toFormat hne (by simpa using h)]
  simp only [List.nil_append, parseHead_packetCodec, parsePacketHead]
  by_cases href : (PacketHead.ofBytes L hd).refused = true
  · simp only [href, if_true]
  · simp only [href, Bool.false_eq_true, if_false]

/-- The stream seen from its beginning: the complete packets, and where it stops. -/
def decode (stream : List UInt8) : List Message × Framing.Phase UInt8 UInt32 :=
  (packetCodec L).feed (.head []) stream

theorem decode_append (stream bytes : List UInt8) :
    decode L (stream ++ bytes) =
      ((decode L stream).1 ++ ((packetCodec L).feed (decode L stream).2 bytes).1,
        ((packetCodec L).feed (decode L stream).2 bytes).2) :=
  Framing.Format.feed_append _ _ _ _

/-- Packets that are complete stay what they are. -/
theorem decode_le (stream bytes : List UInt8) :
    (decode L stream).1 <+: (decode L (stream ++ bytes)).1 := by
  rw [decode_append]
  exact List.prefix_append _ _

theorem wf_decode (stream : List UInt8) :
    (decode L stream).2.WF (packetCodec L).toFormat :=
  (packetCodec L).wf_feed (packetCodec L).wf_start stream

/-- What the decoder has accepted: ids in range, and lengths of 32 bits. -/
theorem valid_decode (stream : List UInt8) :
    (∀ m ∈ (decode L stream).1, m.1 ≤ MAXMESSAGEID ∧ m.2.length < 2 ^ 32) ∧
      ∀ x ∈ (decode L stream).2.pending, x.1 ≤ MAXMESSAGEID ∧ x.2 < 2 ^ 32 :=
  (packetCodec L).valid_feed (packetCodec L).wf_start (by simp [Framing.Phase.pending]) stream

/-- The packets a stream announces up to its first refused head, with their lengths. -/
def announcedLengths (stream : List UInt8) : List (UInt32 × ℕ) :=
  (packetCodec L).announced (.head []) stream

theorem announcedLengths_append (stream bytes : List UInt8) :
    announcedLengths L stream <+: announcedLengths L (stream ++ bytes) :=
  (packetCodec L).announced_append (packetCodec L).wf_start stream bytes

end SmartServer
