import SmartServer.StructType
import SmartServer.Lib.Memory

/-!
# Message nodes

`MsgNode` of `tcphandler.h`: the buffer a message is received into, with the length that was
announced, the id and the number of bytes received so far.

The buffer is allocated with `malloc(msgLen + 1)`, where the sum is a 32-bit unsigned one. That
this is the capacity of every buffer a node ever has is a field of the structure (`capacity`);
for the length `2 ^ 32 - 1` it is the capacity `0`. Every access to the buffer is checked
against the capacity, so a node that is used outside its buffer is a fault of the model.

The copy constructor and the assignment do the same thing once `malloc` has given them a
block: `copyInto`. On a node that can be copied at all (`Copyable`) it gives `copied`.
-/

namespace SmartServer

/-- What one `malloc` gives. When it gives `NULL` a constructor returns before it has set the
counters, which then hold `junk`. -/
inductive Malloc
  | block
  | null (junk : UInt32 × UInt32 × UInt32)

/-- All allocations succeed. -/
def mallocOk : ℕ → Malloc := fun _ => .block

structure MsgNode where
  m_nMsgLen : UInt32
  m_nMsgId : UInt32
  m_nOffSet : UInt32
  /-- The buffer, `none` for `NULL`. -/
  m_pMsg : Option (List UInt8)
  capacity : ∀ blk ∈ m_pMsg, blk.length = (m_nMsgLen + 1).toNat
deriving DecidableEq

namespace MsgNode

/-- `MsgNode()`. -/
def empty : MsgNode := ⟨0, 0, 0, none, by simp⟩

/-- A node without buffer. -/
def unallocated : UInt32 × UInt32 × UInt32 → MsgNode
  | (len, id, off) => ⟨len, id, off, none, by simp⟩

/-- `MsgNode(msgId, msgLen)`: the block is `malloc`ed and set to zero. -/
def new (m : Malloc) (msgId msgLen : UInt32) : MsgNode :=
  match m with
  | .null junk => unallocated junk
  | .block => ⟨msgLen, msgId, 0, some (List.replicate (msgLen + 1).toNat 0), by simp⟩

/-- Store `data` at `m_pMsg + off`. -/
def store (n : MsgNode) (off : ℕ) (data : List UInt8) : Exec MsgNode :=
  match h : n.m_pMsg with
  | none => if data = [] then .ok n else .error .nullDeref
  | some blk =>
    if hb : off + data.length ≤ blk.length then
      .ok { n with
        m_pMsg := some (Block.overwrite blk off data)
        capacity := by
          rintro _ ⟨⟩
          rw [Block.length_overwrite hb]
          exact n.capacity blk h }
    else .error .outOfBounds

/-- The first `len` bytes of the buffer. -/
def load (n : MsgNode) (len : ℕ) : Exec (List UInt8) :=
  match n.m_pMsg with
  | none => if len = 0 then .ok [] else .error .nullDeref
  | some blk => if len ≤ blk.length then .ok (blk.take len) else .error .outOfBounds

/-- What the copy constructor and the assignment do with the block `malloc` gave them: copy the
counters and the message, and put the terminator behind it. -/
def copyInto (msgNode : MsgNode) : Exec MsgNode := do
  let node := new .block msgNode.m_nMsgId msgNode.m_nMsgLen
  let bytes ← msgNode.load msgNode.m_nMsgLen.toNat
  let node ← { node with m_nOffSet := msgNode.m_nOffSet }.store 0 bytes
  node.store msgNode.m_nMsgLen.toNat [0]

/-- The copy constructor. -/
def copy (m : Malloc) (msgNode : MsgNode) : Exec MsgNode :=
  match m with
  | .null junk => .ok (unallocated junk)
  | .block => msgNode.copyInto

/-- `operator =`. The old buffer is deleted first; when `malloc` gives `NULL` the counters stay
what they were. -/
def assign (m : Malloc) (node msgNode : MsgNode) : Exec MsgNode :=
  match m with
  | .null _ => .ok { node with m_pMsg := none, capacity := by simp }
  | .block => msgNode.copyInto

def isReceived (n : MsgNode) : Bool := n.m_nOffSet ≥ n.m_nMsgLen

def getMsgId (n : MsgNode) : UInt32 := n.m_nMsgId

/-- `std::string(m_pMsg)`: the bytes up to the first terminator. -/
def getMsgData (n : MsgNode) : Exec (List UInt8) :=
  match n.m_pMsg with
  | none => .error .nullDeref
  | some blk => if 0 ∈ blk then .ok (blk.takeWhile (· ≠ 0)) else .error .outOfBounds

/-! ## The bytes of a node -/

/-- `m_pMsg[0..m_nMsgLen)`. -/
def payload (n : MsgNode) : List UInt8 := (n.m_pMsg.getD []).take n.m_nMsgLen.toNat

/-- The bytes received so far, `m_pMsg[0..m_nOffSet)`. -/
def received (n : MsgNode) : List UInt8 := (n.m_pMsg.getD []).take n.m_nOffSet.toNat

/-- The message a node holds. -/
def message (n : MsgNode) : Message := (n.m_nMsgId, n.payload)

theorem isReceived_iff {n : MsgNode} : n.isReceived = true ↔ n.m_nMsgLen ≤ n.m_nOffSet := by
  simp [isReceived]

/-- The announced length that wraps when one is added to it. -/
def wrapLen : UInt32 := 0xFFFFFFFF

theorem toNat_add_one {len : UInt32} (h : len ≠ wrapLen) :
    (len + 1).toNat = len.toNat + 1 := by
  have hne : len.toNat ≠ 2 ^ 32 - 1 := fun he => h (UInt32.toNat_inj.mp he)
  have hlt := len.toNat_lt
  rw [UInt32.toNat_add, UInt32.toNat_one]
  omega

theorem length_buffer {n : MsgNode} {blk : List UInt8} (hb : n.m_pMsg = some blk)
    (hlen : n.m_nMsgLen ≠ wrapLen) : blk.length = n.m_nMsgLen.toNat + 1 := by
  rw [n.capacity blk hb, toNat_add_one hlen]

/-- The node with the wrapping length has a buffer of no bytes at all. -/
theorem buffer_eq_nil {n : MsgNode} {blk : List UInt8} (hb : n.m_pMsg = some blk)
    (hlen : n.m_nMsgLen = wrapLen) : blk = [] := by
  apply List.eq_nil_of_length_eq_zero
  rw [n.capacity blk hb, hlen]
  decide

/-! ## Stores -/

theorem store_ok {n : MsgNode} {blk : List UInt8} (hb : n.m_pMsg = some blk) (off : ℕ)
    (data : List UInt8) (h : off + data.length ≤ blk.length) :
    ∃ n', n.store off data = .ok n' ∧ n'.m_nMsgLen = n.m_nMsgLen ∧ n'.m_nMsgId = n.m_nMsgId ∧
      n'.m_nOffSet = n.m_nOffSet ∧ n'.m_pMsg = some (Block.overwrite blk off data) := by
  unfold store
  split
  · rename_i hnone
    rw [hb] at hnone
    cases hnone
  · rename_i blk' hsome
    obtain rfl : blk = blk' := by rw [hb] at hsome; exact Option.some.inj hsome
    rw [dif_pos h]
    exact ⟨_, rfl, rfl, rfl, rfl, rfl⟩

theorem store_outOfBounds {n : MsgNode} {blk : List UInt8} (hb : n.m_pMsg = some blk) {off : ℕ}
    {data : List UInt8} (h : blk.length < off + data.length) :
    n.store off data = .error .outOfBounds := by
  unfold store
  split
  · rename_i hnone
    rw [hb] at hnone
    cases hnone
  · rename_i blk' hsome
    obtain rfl : blk = blk' := by rw [hb] at hsome; exact Option.some.inj hsome
    rw [dif_neg (by omega)]

/-- Without a buffer there is no place for a byte. -/
theorem store_null {n : MsgNode} (hnull : n.m_pMsg = none) (off : ℕ) (data : List UInt8) :
    n.store off data = if data = [] then .ok n else .error .nullDeref := by
  unfold store
  split
  · rfl
  · rename_i hsome
    rw [hnull] at hsome
    cases hsome

/-- A store changes nothing but the buffer. -/
theorem store_inv {n n' : MsgNode} {off : ℕ} {data : List UInt8} (h : n.store off data = .ok n') :
    n'.m_nMsgLen = n.m_nMsgLen ∧ n'.m_nMsgId = n.m_nMsgId ∧ n'.m_nOffSet = n.m_nOffSet := by
  unfold store at h
  split at h
  · split at h
    · obtain rfl := Except.ok.inj h
      exact ⟨rfl, rfl, rfl⟩
    · cases h
  · split at h
    · obtain rfl := Except.ok.inj h
      exact ⟨rfl, rfl, rfl⟩
    · cases h

/-! ## Copies -/

/-- The nodes that can be copied: the length does not wrap, and a missing buffer has no bytes
to be copied. -/
structure Copyable (n : MsgNode) : Prop where
  lenOk : n.m_nMsgLen ≠ wrapLen
  buffer : n.m_pMsg = none → n.m_nMsgLen = 0

theorem length_payload {n : MsgNode} (h : n.Copyable) :
    n.payload.length = n.m_nMsgLen.toNat := by
  cases hb : n.m_pMsg with
  | none => simp [payload, hb, h.buffer hb]
  | some blk => simp [payload, hb, length_buffer hb h.lenOk]

/-- What a copy of a copyable node is. -/
def copied (n : MsgNode) (h : n.Copyable) : MsgNode where
  m_nMsgLen := n.m_nMsgLen
  m_nMsgId := n.m_nMsgId
  m_nOffSet := n.m_nOffSet
  m_pMsg := some (n.payload ++ [0])
  capacity := by
    rintro _ ⟨⟩
    rw [toNat_add_one h.lenOk, List.length_append, length_payload h, List.length_singleton]

theorem load_payload {n : MsgNode} (h : n.Copyable) :
    n.load n.m_nMsgLen.toNat = .ok n.payload := by
  cases hb : n.m_pMsg with
  | none => simp [load, payload, hb, h.buffer hb]
  | some blk =>
    have hlen := length_buffer hb h.lenOk
    simp only [load, payload, hb, Option.getD_some]
    rw [if_pos (by omega)]

/-- **A copyable node is copied intact.** -/
theorem copyInto_ok {n : MsgNode} (h : n.Copyable) : n.copyInto = .ok (n.copied h) := by
  have hcap : (n.m_nMsgLen + 1).toNat = n.m_nMsgLen.toNat + 1 := toNat_add_one h.lenOk
  have hpay := length_payload h
  obtain ⟨n₁, h₁, hlen₁, hid₁, hoff₁, hblk₁⟩ := store_ok
    (n := { new .block n.m_nMsgId n.m_nMsgLen with m_nOffSet := n.m_nOffSet })
    (show _ = some (List.replicate (n.m_nMsgLen + 1).toNat 0) from rfl) 0 n.payload
    (by simp [hcap, hpay])
  have htail : Block.overwrite (List.replicate (n.m_nMsgLen + 1).toNat 0) 0 n.payload =
      n.payload ++ [0] := by
    simp [Block.overwrite, hcap, hpay]
  rw [htail] at hblk₁
  obtain ⟨n₂, h₂, hlen₂, hid₂, hoff₂, hblk₂⟩ := store_ok hblk₁ n.m_nMsgLen.toNat [0]
    (by simp [hpay])
  have hend : Block.overwrite (n.payload ++ [0]) n.m_nMsgLen.toNat [0] = n.payload ++ [0] := by
    simp [Block.overwrite, ← hpay]
  rw [hend] at hblk₂
  simp only [copyInto, load_payload h, bind, Except.bind, h₁, h₂, Except.ok.injEq]
  cases n₂
  simp_all [copied, new]

theorem copyInto_wrapLen {n : MsgNode} {blk : List UInt8} (hb : n.m_pMsg = some blk)
    (hlen : n.m_nMsgLen = wrapLen) : n.copyInto = .error .outOfBounds := by
  have hnil := buffer_eq_nil hb hlen
  have hload : n.load n.m_nMsgLen.toNat = .error .outOfBounds := by
    simp [load, hb, hnil, hlen, wrapLen]
  simp [copyInto, hload, bind, Except.bind]

theorem copyable_copied {n : MsgNode} (h : n.Copyable) : (n.copied h).Copyable :=
  ⟨h.lenOk, fun hb => by cases hb⟩

@[simp] theorem payload_copied {n : MsgNode} (h : n.Copyable) :
    (n.copied h).payload = n.payload := by
  show (n.payload ++ [0]).take n.m_nMsgLen.toNat = n.payload
  exact List.take_left' (length_payload h)

@[simp] theorem message_copied {n : MsgNode} (h : n.Copyable) :
    (n.copied h).message = n.message := by
  simp only [message, payload_copied]
  rfl

/-- Copying a copy changes nothing. -/
theorem copied_copied {n : MsgNode} (h : n.Copyable) :
    (n.copied h).copied (copyable_copied h) = n.copied h := by
  have hpay := payload_copied h
  unfold copied at hpay ⊢
  simp only [hpay]

/-- A node that came out of a copy: the copies of it are the node itself. -/
structure IsCopy (n : MsgNode) : Prop where
  copyable : n.Copyable
  copied : n.copied copyable = n

theorem isCopy_copied {n : MsgNode} (h : n.Copyable) : (n.copied h).IsCopy :=
  ⟨copyable_copied h, copied_copied h⟩

theorem IsCopy.copyInto {n : MsgNode} (h : n.IsCopy) : n.copyInto = .ok n := by
  rw [copyInto_ok h.copyable, h.copied]

/-- Only copyable nodes can be copied. -/
theorem copyable_of_copyInto {n c : MsgNode} (h : n.copyInto = .ok c) : n.Copyable := by
  cases hb : n.m_pMsg with
  | none =>
    have hlen : n.m_nMsgLen = 0 := by
      by_contra hne
      have hload : n.load n.m_nMsgLen.toNat = .error .nullDeref := by
        rw [load, hb]
        exact if_neg fun he => hne (UInt32.toNat_inj.mp he)
      rw [copyInto, hload] at h
      cases h
    exact ⟨by rw [hlen]; decide, fun _ => hlen⟩
  | some blk =>
    refine ⟨?_, fun hnone => by rw [hb] at hnone; cases hnone⟩
    intro hw
    rw [copyInto_wrapLen hb hw] at h
    cases h

/-- What an assignment gives is a copy, of the same message. -/
theorem assign_block {n c c' : MsgNode} (h : assign .block n c = .ok c') :
    c'.IsCopy ∧ c'.message = c.message := by
  have hcopy := copyable_of_copyInto h
  obtain rfl : c.copied hcopy = c' := by
    rw [assign, copyInto_ok hcopy] at h
    exact Except.ok.inj h
  exact ⟨isCopy_copied hcopy, message_copied hcopy⟩

/-- The string made of a copy is its message up to the first zero byte. -/
theorem getMsgData_copied {n : MsgNode} (h : n.Copyable) :
    (n.copied h).getMsgData = .ok (n.payload.takeWhile (· ≠ 0)) := by
  simp only [getMsgData, copied, List.mem_append, List.mem_singleton, or_true, if_true]
  congr 1
  induction n.payload with
  | nil => rfl
  | cons b bs ih =>
    by_cases hb : b = 0
    · simp [hb]
    · simp only [List.cons_append, List.takeWhile_cons, ne_eq, hb, not_false_eq_true, decide_true,
        if_true, ih]

end MsgNode

end SmartServer
