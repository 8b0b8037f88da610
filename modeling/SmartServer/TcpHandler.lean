import SmartServer.MsgNode
import SmartServer.Lib.Loop

/-!
# `TcpHandler`: the read loop

The executable half of a connection's handler, following `tcphandler.cpp`. The handler owns a
list of nodes and keeps a raw pointer `m_pLastNode` to the node it is receiving into; the
pointer is an address, so it can outlive its node. The bytes libevent has buffered for the
connection are a parameter, and the unread ones are returned.

`dealReadEvent` runs the loop `while(inputLen > 0)`. A pass reads a head when there is no node
to receive into (`readHead`), and then receives into the current node (`readBody`, `tcpRead`).
`inputLen` is counted beside the buffer, as in the source, and is not looked up again.

What the loop computes is proved in `SmartServer.ReadLoop`.
-/

namespace SmartServer

/-! ## What libevent and C provide -/

/-- `bufferevent_read`: the bytes it stores, and those that stay buffered. -/
def buffereventRead (inputBuf : List UInt8) (size : ℕ) : List UInt8 × List UInt8 :=
  (inputBuf.take size, inputBuf.drop size)

/-- Subtraction of `size_t`. -/
def sizeSub (a b : ℕ) : ℕ := if b ≤ a then a - b else a + 2 ^ 64 - b

theorem sizeSub_of_le {a b : ℕ} (h : b ≤ a) : sizeSub a b = a - b := if_pos h

/-! ## The handler -/

structure TcpHandler where
  m_nConnId : UInt64
  m_pBufferevent : Option ℕ
  m_listMsgs : OwnedList MsgNode
  m_pLastNode : Option ℕ
deriving DecidableEq

/-- What `dealReadEvent` leaves: the handler, the bytes still buffered, and `success`. -/
structure ReadResult where
  handler : TcpHandler
  inputBuf : List UInt8
  success : ℤ
deriving DecidableEq

/-- The state at the loop test. -/
structure ReadState where
  handler : TcpHandler
  inputBuf : List UInt8
  inputLen : ℕ
deriving DecidableEq

namespace TcpHandler

def new (connId : UInt64) (pBufferevent : Option ℕ) : TcpHandler where
  m_nConnId := connId
  m_pBufferevent := pBufferevent
  m_listMsgs := .empty
  m_pLastNode := none

/-- `*m_pLastNode`, with its address. -/
def lastNode (h : TcpHandler) : Exec (ℕ × MsgNode) :=
  match h.m_pLastNode with
  | none => .error .nullDeref
  | some p =>
    match h.m_listMsgs.get? p with
    | none => .error .useAfterFree
    | some n => .ok (p, n)

/-- `!m_pLastNode || m_pLastNode->m_nMsgLen <= m_pLastNode->m_nOffSet`. -/
def expectsHead (h : TcpHandler) : Exec Bool :=
  match h.m_pLastNode with
  | none => .ok true
  | some _ => do
    let (_, node) ← h.lastNode
    pure (node.m_nMsgLen ≤ node.m_nOffSet)

def insertNode (h : TcpHandler) (m : Malloc) (msgId msgLen : UInt32) : TcpHandler :=
  { h with
    m_listMsgs := h.m_listMsgs.pushBack (.new m msgId msgLen)
    m_pLastNode := some h.m_listMsgs.next }

/-- Receive into the current node. -/
def tcpRead (s : ReadState) : Exec ReadState := do
  let (p, node) ← s.handler.lastNode
  if node.m_nMsgLen ≥ node.m_nOffSet then
    let remainLen := node.m_nMsgLen - node.m_nOffSet
    let (data, inputBuf) := buffereventRead s.inputBuf remainLen.toNat
    let node ← node.store node.m_nOffSet.toNat data
    let readLen := UInt32.ofNat data.length
    let inputLen := sizeSub s.inputLen readLen.toNat
    let node := { node with m_nOffSet := node.m_nOffSet + readLen }
    if node.m_nOffSet ≥ node.m_nMsgLen then
      let node ← node.store node.m_nMsgLen.toNat [0]
      let m_listMsgs := s.handler.m_listMsgs.set p node
      pure ⟨{ s.handler with m_listMsgs, m_pLastNode := none }, inputBuf, inputLen⟩
    else
      pure ⟨{ s.handler with m_listMsgs := s.handler.m_listMsgs.set p node }, inputBuf, inputLen⟩
  else
    throw .assertion

variable (L : IntLayout) (malloc : ℕ → Malloc) (success : ℤ)

/-- Read a head. `malloc p` is what `malloc` gives the constructor of the node at address `p`. -/
def readHead (s : ReadState) : Pass ReadState ReadResult :=
  if s.inputLen < PACKETHEADLEN then .leave ⟨s.handler, s.inputBuf, success⟩
  else
    let (data, inputBuf) := buffereventRead s.inputBuf PACKETHEADLEN
    -- `char data[PACKETHEADLEN] = {0}`, then `bufferevent_read` into it
    let packetHead := PacketHead.ofBytes L
      (Block.overwrite (List.replicate PACKETHEADLEN 0) 0 data)
    if packetHead.refused then .leave ⟨s.handler, inputBuf, 0⟩
    else .again
      ⟨s.handler.insertNode (malloc s.handler.m_listMsgs.next) packetHead.packetID.toUInt32
        packetHead.packetLen.toUInt32, inputBuf, sizeSub s.inputLen PACKETHEADLEN⟩

/-- The rest of the pass, once there is a node to receive into. -/
def readBody (s : ReadState) : Exec (Pass ReadState ReadResult) :=
  if s.inputLen ≤ 0 then .ok (.leave ⟨s.handler, s.inputBuf, success⟩)
  else do pure (.again (← tcpRead s))

/-- One pass of `while(inputLen > 0)`, the test included. -/
def readPass (s : ReadState) : Exec (Pass ReadState ReadResult) :=
  if s.inputLen > 0 then do
    if ← s.handler.expectsHead then
      match readHead L malloc success s with
      | .leave r => pure (.leave r)
      | .again s => readBody success s
    else readBody success s
  else pure (.leave ⟨s.handler, s.inputBuf, success⟩)

/-- `dealReadEvent`. A pass takes a byte at least, which bounds the passes. -/
def dealReadEvent (h : TcpHandler) (inputBuf : List UInt8) : Exec ReadResult :=
  match Loop.run (readPass L malloc success) (inputBuf.length + 1)
      ⟨h, inputBuf, inputBuf.length⟩ with
  | some r => r
  | none => .error .diverges

/-- The bytes `dealWriteEvent` appends to the output buffer. `written` is whether
`bufferevent_write` took them. -/
def dealWriteEvent (written : Bool) (output : List UInt8) (msgID : UInt32)
    (strSend : List UInt8) : List UInt8 :=
  let packetHead : PacketHead := ⟨msgID.toInt32, (UInt32.ofNat strSend.length).toInt32⟩
  let sendData := packetHead.toBytes L ++ strSend
  if written then output ++ sendData else output

/-- The bytes a sequence of `dealWriteEvent`s writes. -/
def writeEvents (msgs : List Message) : List UInt8 :=
  msgs.foldl (fun output m => dealWriteEvent L true output m.1 m.2) []

/-- Read events one after the other, each bringing some bytes; the first that fails is the
last. -/
def readEvents (r : ReadResult) : List (List UInt8) → Exec ReadResult
  | [] => .ok r
  | bytes :: events =>
    if r.success = 0 then .ok r
    else do
      let r ← dealReadEvent L malloc 1 r.handler (r.inputBuf ++ bytes)
      readEvents r events

end TcpHandler

end SmartServer
