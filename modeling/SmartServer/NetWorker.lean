import SmartServer.TcpHandler

/-!
# `NetWorker`: the queue of a worker and its loop

The executable half of `networker.h` and `networker.cpp`. The network thread drains a handler's
list into `m_msgInStream` (`pushNodeInStream`); the worker's thread takes all of the stream as a
batch and hands the batch to `handleMsg`, message by message (`threadStep`). A `MsgStream` counts
its elements by hand, in 32 bits, and every move between two streams is a copy.

The bodies under `m_mutexLock` are one step each. The tests of `m_nShutDown` are outside the lock
and steps of their own, so it may be set between any two of them.
-/

namespace SmartServer

/-! ## Messages with their connection -/

structure ConMsgNode where
  mConnId : UInt64
  mMsgNode : MsgNode
deriving DecidableEq

namespace ConMsgNode

/-- `ConMsgNode()`. -/
def new : ConMsgNode := ⟨0, .empty⟩

/-- `operator =`. -/
def assign (m : Malloc) (node conMsgNode : ConMsgNode) : Exec ConMsgNode := do
  let mMsgNode ← MsgNode.assign m node.mMsgNode conMsgNode.mMsgNode
  pure ⟨conMsgNode.mConnId, mMsgNode⟩

/-- The copy constructor: the node is built empty, and then assigned to. -/
def copy (m : Malloc) (conMsgNode : ConMsgNode) : Exec ConMsgNode := assign m new conMsgNode

/-- The connection a message came from, and the message. -/
def message (c : ConMsgNode) : UInt64 × Message := (c.mConnId, c.mMsgNode.message)

end ConMsgNode

/-! ## Streams of messages -/

structure MsgStream where
  m_nCount : UInt32
  m_listConMsg : List ConMsgNode
deriving DecidableEq

namespace MsgStream

/-- `MsgStream()`. -/
def new : MsgStream := ⟨0, []⟩

/-- `push_back` copies its argument. -/
def insertMsgToList (m : Malloc) (s : MsgStream) (msgNode : ConMsgNode) : Exec MsgStream := do
  let node ← msgNode.copy m
  pure ⟨s.m_nCount + 1, s.m_listConMsg ++ [node]⟩

/-- The stream, what `msgNode` holds afterwards, and the result. -/
def popMsgFromList (m : Malloc) (s : MsgStream) (msgNode : ConMsgNode) :
    Exec (MsgStream × ConMsgNode × Bool) :=
  if s.m_nCount = 0 then .ok (s, msgNode, false)
  else
    match s.m_listConMsg with
    | [] => .error .emptyList
    | front :: rest => do
      let msgNode ← msgNode.assign m front
      pure (⟨s.m_nCount - 1, rest⟩, msgNode, true)

def getCount (s : MsgStream) : UInt32 := s.m_nCount

end MsgStream

/-! ## The worker -/

/-- Where the worker's thread is. -/
inductive WorkerPc
  /-- At the test of `m_nShutDown` in `threadWorkFunc`. -/
  | loopTest
  /-- At the test of `m_nShutDown` in `popMsgFromInStream`. -/
  | popTest
  /-- At the lock in `popMsgFromInStream`. -/
  | popLock
  /-- At the test `i < count` of the loop over the batch. -/
  | handling (i count : UInt32) (msgStream : MsgStream)
  | exited
deriving DecidableEq

structure NetWorker where
  m_nShutDown : UInt32
  /-- Whether the pointer is not `NULL`. -/
  m_mutexLock : Bool
  m_msgInStream : MsgStream
  pc : WorkerPc
deriving DecidableEq

namespace NetWorker

/-- `NetWorker()`, with its thread started. -/
def new : NetWorker where
  m_nShutDown := 0
  m_mutexLock := true
  m_msgInStream := .new
  pc := .loopTest

/-- `CLock mylock(m_mutexLock)`. -/
def lock (w : NetWorker) : Exec Unit :=
  if w.m_mutexLock then .ok () else .error .nullDeref

/-- The loop of `pushNodeInStream`: at most `k` nodes are moved, up to the first that is not
received. -/
def pushLoop (malloc : ℕ → Malloc) : ℕ → TcpHandler × MsgStream → Exec (TcpHandler × MsgStream)
  | 0, s => .ok s
  | k + 1, (tcpHandler, m_msgInStream) =>
    match tcpHandler.m_listMsgs.values with
    | [] => .error .emptyList
    | msgNode :: _ =>
      if msgNode.isReceived then do
        let mMsgNode ← MsgNode.assign (malloc (2 * k + 1)) .empty msgNode
        let conMsgNode : ConMsgNode := ⟨tcpHandler.m_nConnId, mMsgNode⟩
        let tcpHandler := { tcpHandler with m_listMsgs := tcpHandler.m_listMsgs.popFront }
        let m_msgInStream ← m_msgInStream.insertMsgToList (malloc (2 * k)) conMsgNode
        pushLoop malloc k (tcpHandler, m_msgInStream)
      else .ok (tcpHandler, m_msgInStream)

/-- `pushNodeInStream`. The number of nodes is cut down to a `UInt32`. -/
def pushNodeInStream (malloc : ℕ → Malloc) (w : NetWorker) (tcpHandler : TcpHandler) :
    Exec (NetWorker × TcpHandler) := do
  w.lock
  let count := UInt32.ofNat tcpHandler.m_listMsgs.values.length
  let (tcpHandler, m_msgInStream) ←
    pushLoop malloc count.toNat (tcpHandler, w.m_msgInStream)
  pure ({ w with m_msgInStream }, tcpHandler)

/-- The loop of `popMsgFromInStream`: `k` elements are moved to the batch. -/
def popLoop (malloc : ℕ → Malloc) : ℕ → MsgStream × MsgStream → Exec (MsgStream × MsgStream)
  | 0, s => .ok s
  | k + 1, (m_msgInStream, msgStream) => do
    let (m_msgInStream, msgNode, flag) ←
      m_msgInStream.popMsgFromList (malloc (2 * k + 1)) .new
    if flag then
      let msgStream ← msgStream.insertMsgToList (malloc (2 * k)) msgNode
      popLoop malloc k (m_msgInStream, msgStream)
    else popLoop malloc k (m_msgInStream, msgStream)

/-- The part of `popMsgFromInStream` under the lock: the stream, the batch, and the result. -/
def popMsgFromInStream (malloc : ℕ → Malloc) (w : NetWorker) (msgStream : MsgStream) :
    Exec (NetWorker × MsgStream × Bool) := do
  w.lock
  let count := w.m_msgInStream.getCount
  if count = 0 then pure (w, msgStream, false)
  else
    let (m_msgInStream, msgStream) ← popLoop malloc count.toNat (w.m_msgInStream, msgStream)
    pure ({ w with m_msgInStream }, msgStream, true)

/-- One step of `threadWorkFunc`, and the message it hands to `handleMsg`, if any. -/
def threadStep (malloc : ℕ → Malloc) (w : NetWorker) : Exec (NetWorker × Option ConMsgNode) :=
  match w.pc with
  | .loopTest =>
    if w.m_nShutDown ≠ 0 then .ok ({ w with m_mutexLock := false, pc := .exited }, none)
    else .ok ({ w with pc := .popTest }, none)
  | .popTest =>
    -- `popMsgFromInStream` returns `false`, and the loop goes on after a sleep
    if w.m_nShutDown ≠ 0 then .ok ({ w with pc := .loopTest }, none)
    else .ok ({ w with pc := .popLock }, none)
  | .popLock => do
    let (w, msgStream, flag) ← w.popMsgFromInStream malloc .new
    let count := msgStream.getCount
    if count = 0 ∨ flag = false then pure ({ w with pc := .loopTest }, none)
    else pure ({ w with pc := .handling 0 count msgStream }, none)
  | .handling i count msgStream =>
    if i < count then do
      let (msgStream, msgNode, flag) ← msgStream.popMsgFromList (malloc 0) .new
      pure ({ w with pc := .handling (i + 1) count msgStream },
        if flag then some msgNode else none)
    else .ok ({ w with pc := .loopTest }, none)
  | .exited => .ok (w, none)

/-- What is left of the batch. -/
def batch (w : NetWorker) : List ConMsgNode :=
  match w.pc with
  | .handling _ _ msgStream => msgStream.m_listConMsg
  | _ => []

end NetWorker

end SmartServer
