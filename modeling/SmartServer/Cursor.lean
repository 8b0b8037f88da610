import SmartServer.ReadEvents
import SmartServer.Lib.Run

/-!
# Where `m_pLastNode` points after a read event

`tcpRead` sets `m_pLastNode` to `NULL` when it completes a node, but it is only called when there
are bytes to read. A head that announces no body and is the last thing in the buffer therefore
leaves the cursor on a node that is complete already.

**Theorem (`dealReadEvent_cursor`).** If the cursor was `NULL` or on an unfinished node before a
read event, it is so after it, or else the event ended right behind the head of a message without
body, and the cursor is on that node, the last of the list.
-/

namespace SmartServer

open Framing

namespace TcpHandler

/-- The cursor is `NULL`, or on a node that still needs bytes. -/
def Receiving (h : TcpHandler) : Prop :=
  ∀ p, h.m_pLastNode = some p →
    ∃ n, h.m_listMsgs.get? p = some n ∧ n.m_nOffSet < n.m_nMsgLen

/-- The cursor is on the last node, which was announced without body. -/
def OnEmptyNode (h : TcpHandler) : Prop :=
  ∃ init p n, h.m_listMsgs.cells = init ++ [(p, n)] ∧ h.m_pLastNode = some p ∧ n.m_nMsgLen = 0

theorem receiving_of_none {h : TcpHandler} (hp : h.m_pLastNode = none) : h.Receiving := by
  intro p hp'
  rw [hp] at hp'
  cases hp'

/-- Between messages, a receiving handler has no cursor at all. -/
theorem Receiving.cursor_eq_none {h : TcpHandler} (hr : h.Receiving) (hi : h.Idle) :
    h.m_pLastNode = none := by
  cases hp : h.m_pLastNode with
  | none => rfl
  | some p =>
    obtain ⟨n, hn, hlt⟩ := hr p hp
    obtain ⟨n', hn', hle⟩ := hi p hp
    obtain rfl : n = n' := Option.some.inj (hn.symm.trans hn')
    exact absurd hle (UInt32.not_le.mpr hlt)

/-! ## One pass -/

variable {L : IntLayout}

theorem lastNode_inv {h : TcpHandler} {p : ℕ} {n : MsgNode} (hl : h.lastNode = .ok (p, n)) :
    h.m_pLastNode = some p ∧ h.m_listMsgs.get? p = some n := by
  unfold lastNode at hl
  split at hl
  · cases hl
  · rename_i q hq
    split at hl
    · cases hl
    · rename_i m hm
      obtain ⟨rfl, rfl⟩ := Prod.mk.inj (Except.ok.inj hl)
      exact ⟨hq, hm⟩

/-- `tcpRead` clears the cursor, or leaves it on a node that needs more; and it counts the bytes
it takes. -/
theorem tcpRead_inv {s s' : ReadState} (hlen : s.inputLen = s.inputBuf.length)
    (hrun : tcpRead s = .ok s') :
    s'.handler.Receiving ∧ s'.inputLen = s'.inputBuf.length := by
  obtain ⟨⟨p, n⟩, hlast, hrun⟩ := Run.of_bind hrun
  obtain ⟨hp, hn⟩ := lastNode_inv hlast
  by_cases hge : n.m_nMsgLen ≥ n.m_nOffSet
  · simp only [if_pos hge, buffereventRead] at hrun
    obtain ⟨n₁, hs, hrun⟩ := Run.of_bind hrun
    obtain ⟨hl₁, -, ho₁⟩ := MsgNode.store_inv hs
    set size := (n.m_nMsgLen - n.m_nOffSet).toNat with hsize
    have hbound : size < 2 ^ 32 := UInt32.toNat_lt _
    have htake : (s.inputBuf.take size).length ≤ size := List.length_take_le _ _
    have hleft : sizeSub s.inputLen (UInt32.ofNat (s.inputBuf.take size).length).toNat =
        (s.inputBuf.drop size).length := by
      rw [UInt32.toNat_ofNat_of_lt' (show _ < 2 ^ 32 by omega), hlen, List.length_take,
        sizeSub_of_le (min_le_right _ _), List.length_drop]
      omega
    by_cases hend : n₁.m_nOffSet + UInt32.ofNat (s.inputBuf.take size).length ≥ n₁.m_nMsgLen
    · simp only [hend, if_true] at hrun
      obtain ⟨n₂, -, hrun⟩ := Run.of_bind hrun
      obtain rfl := Except.ok.inj hrun
      exact ⟨receiving_of_none rfl, hleft⟩
    · simp only [hend, if_false] at hrun
      obtain rfl := Except.ok.inj hrun
      refine ⟨?_, hleft⟩
      intro q hq
      obtain rfl : p = q := Option.some.inj (hp.symm.trans hq)
      exact ⟨_, OwnedList.get?_set_self hn _, UInt32.not_le.mp hend⟩
  · simp only [if_neg hge] at hrun
    cases hrun

/-- What the loop keeps. -/
structure CursorInv (s : ReadState) : Prop where
  inputLen : s.inputLen = s.inputBuf.length
  receiving : s.handler.Receiving

/-- What is left when the loop is. -/
def CursorPost (r : ReadResult) : Prop :=
  r.handler.Receiving ∨ (r.inputBuf = [] ∧ r.handler.OnEmptyNode)

def CursorPass : Pass ReadState ReadResult → Prop
  | .again s => CursorInv s
  | .leave r => CursorPost r

/-- The rest of a pass, from a state in which the cursor may also be on a new empty node. -/
theorem readBody_cursor {s : ReadState} (hlen : s.inputLen = s.inputBuf.length)
    (hs : s.handler.Receiving ∨ s.handler.OnEmptyNode) {pass : Pass ReadState ReadResult}
    (hrun : readBody 1 s = .ok pass) : CursorPass pass := by
  by_cases hzero : s.inputLen ≤ 0
  · rw [readBody, if_pos hzero] at hrun
    obtain rfl := Except.ok.inj hrun
    have hnil : s.inputBuf = [] := List.eq_nil_of_length_eq_zero (by omega)
    rcases hs with hs | hs
    · exact .inl hs
    · exact .inr ⟨hnil, hs⟩
  · rw [readBody, if_neg hzero] at hrun
    obtain ⟨s', hread, hrun⟩ := Run.of_bind hrun
    obtain rfl := Except.ok.inj hrun
    obtain ⟨hr, hl⟩ := tcpRead_inv hlen hread
    exact ⟨hl, hr⟩

theorem insertNode_cursor (h : TcpHandler) (id len : UInt32) :
    (h.insertNode .block id len).Receiving ∨ (h.insertNode .block id len).OnEmptyNode := by
  have hf := filling_insertNode h id len
  by_cases hzero : len = 0
  · exact .inr ⟨_, _, _, hf.cells, hf.cursor, hzero⟩
  · refine .inl ?_
    intro p hp
    obtain rfl : h.m_listMsgs.next = p := Option.some.inj (hf.cursor.symm.trans hp)
    refine ⟨_, OwnedList.get?_last hf.cells, UInt32.lt_iff_toNat_lt.mpr ?_⟩
    exact Nat.pos_of_ne_zero fun he => hzero (UInt32.toNat_inj.mp he)

theorem readPass_cursor {s : ReadState} (hs : CursorInv s) {pass : Pass ReadState ReadResult}
    (hrun : readPass L mallocOk 1 s = .ok pass) : CursorPass pass := by
  obtain ⟨hlen, hrecv⟩ := hs
  by_cases hpos : s.inputLen > 0
  · rw [readPass, if_pos hpos] at hrun
    obtain ⟨isHead, -, hrun⟩ := Run.of_bind hrun
    cases isHead with
    | false => exact readBody_cursor hlen (.inl hrecv) hrun
    | true =>
      simp only [if_true, readHead] at hrun
      by_cases hshort : s.inputLen < PACKETHEADLEN
      · simp only [if_pos hshort] at hrun
        obtain rfl := Except.ok.inj hrun
        exact .inl hrecv
      · simp only [if_neg hshort, buffereventRead] at hrun
        by_cases href : (PacketHead.ofBytes L (Block.overwrite (List.replicate PACKETHEADLEN 0) 0
          (s.inputBuf.take PACKETHEADLEN))).refused = true
        · simp only [href, if_true] at hrun
          obtain rfl := Except.ok.inj hrun
          exact .inl hrecv
        · simp only [href, Bool.false_eq_true, if_false] at hrun
          refine readBody_cursor ?_ (insertNode_cursor _ _ _) hrun
          show sizeSub s.inputLen PACKETHEADLEN = _
          rw [sizeSub_of_le (not_lt.mp hshort), hlen, List.length_drop]
  · rw [readPass, if_neg hpos] at hrun
    obtain rfl := Except.ok.inj hrun
    exact .inl hrecv

/-- **The cursor after a read event.** -/
theorem dealReadEvent_cursor {h : TcpHandler} (hrecv : h.Receiving) {buf : List UInt8}
    {r : ReadResult} (hrun : dealReadEvent L mallocOk 1 h buf = .ok r) : CursorPost r := by
  unfold dealReadEvent at hrun
  split at hrun
  · rename_i x hloop
    rw [hrun] at hloop
    exact Loop.run_ok (fun _ _ hs hb => readPass_cursor hs hb)
      (fun _ _ hs hb => readPass_cursor hs hb) ⟨rfl, hrecv⟩ hloop
  · cases hrun

end TcpHandler

end SmartServer
