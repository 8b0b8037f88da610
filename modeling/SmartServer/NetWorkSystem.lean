import SmartServer.NetWorker
import SmartServer.MsgHandler

/-!
# `NetWorkSystem`: connections, their two maps, and the workers

The executable whole, following `networksystem.cpp` and `testmsghandler.cpp`. The network thread
finds the handler of a bufferevent by its descriptor, which the system hands out again once it is
closed; a worker finds it by the connection id of the message it handles, which is counted up
and never comes back before the count wraps. Handlers and bufferevents are objects of a heap, and
both maps hold pointers, so that a pointer which outlives its object is a fault.

One event is one step: a callback of the network thread, or a step of a worker's thread, in which
a message is looked up and answered. Bytes may arrive on every bufferevent there ever was, and
libevent may fire a callback for every one.

Allocations succeed (`mallocOk`). What happens to messages when they do not is the subject of
`SmartServer.AllocationFailure`.

What the program has done so far is kept beside its state: the connections accepted, the bytes
that have arrived on a bufferevent and those written to it, and the messages each worker's stream
and each worker were given.
-/

namespace SmartServer

/-! ## What libevent and protobuf provide -/

/-- A bufferevent: its descriptor, and the bytes that have not been read. -/
structure Bufferevent where
  fd : ℤ
  input : List UInt8
  /-- Everything that was written to it. -/
  output : List UInt8
  /-- Everything that has arrived. -/
  arrived : List UInt8

/-- `smart::test`. Both directions are functions of their input. -/
structure Protobuf where
  Test : Type
  /-- `none` when `ParseFromString` returns `false`. -/
  parseFromString : List UInt8 → Option Test
  serializeToString : Test → List UInt8

/-- `*p`, with its address. -/
def deref {α : Type} (m : Heap α) : Option ℕ → Exec (ℕ × α)
  | none => .error .nullDeref
  | some p =>
    match m.get? p with
    | none => .error .useAfterFree
    | some a => .ok (p, a)

/-! ## The state -/

structure NetWorkSystem where
  m_mapTcpHandlers : Std.TreeMap ℤ (Option ℕ)
  m_mapConHandlers : Std.TreeMap UInt64 (Option ℕ)
  m_nConnId : UInt64
  m_pNetWorkers : Fin 2 → NetWorker
  tcpHandlers : Heap TcpHandler
  bufferevents : Heap Bufferevent
  /-- The descriptors that are open. -/
  openFds : Finset ℤ
  /-- The connections accepted so far, with their bufferevents. -/
  connections : List (UInt64 × ℕ)
  /-- What was inserted into the stream of each worker. -/
  inserted : Fin 2 → List ConMsgNode
  /-- What each worker has handed to `handleMsg`. -/
  handled : Fin 2 → List ConMsgNode

namespace NetWorkSystem

def initial : NetWorkSystem where
  m_mapTcpHandlers := ∅
  m_mapConHandlers := ∅
  m_nConnId := 0
  m_pNetWorkers _ := .new
  tcpHandlers := .empty
  bufferevents := .empty
  openFds := ∅
  connections := []
  inserted _ := []
  handled _ := []

/-- There is a worker `0`. -/
instance : NeZero 2 := ⟨two_ne_zero⟩

/-- `connId % 2`. -/
def shard (connId : UInt64) : Fin 2 := ⟨connId.toNat % 2, Nat.mod_lt _ two_pos⟩

/-! ## Accepting and erasing -/

def addConnection (s : NetWorkSystem) (fd : ℤ) (bev : ℕ) : NetWorkSystem :=
  let m_nConnId := s.m_nConnId + 1
  let tcpHandler := s.tcpHandlers.next
  { s with
    m_nConnId
    tcpHandlers := s.tcpHandlers.alloc (.new m_nConnId (some bev))
    m_mapTcpHandlers := s.m_mapTcpHandlers.insertIfNew fd (some tcpHandler)
    m_mapConHandlers := s.m_mapConHandlers.insertIfNew m_nConnId (some tcpHandler)
    connections := s.connections ++ [(m_nConnId, bev)] }

/-- `listener_read_cb`, when `accept` returns `acceptres`. -/
def listener_read_cb (s : NetWorkSystem) (acceptres : ℤ) : NetWorkSystem :=
  if acceptres = -1 then s
  else
    let buffersocket := s.bufferevents.next
    addConnection
      { s with
        openFds := insert acceptres s.openFds
        bufferevents := s.bufferevents.alloc ⟨acceptres, [], [], []⟩ }
      acceptres buffersocket

/-- `delete` of a handler. The nodes of its list go with it. The destructor frees the bufferevent
only when the pointer to it is `NULL`, so a bufferevent outlives its handler. -/
def deleteTcpHandler (s : NetWorkSystem) (p : ℕ) (tcpHandler : TcpHandler) : Exec NetWorkSystem :=
  if tcpHandler.m_pBufferevent = none then .error .nullDeref
  else .ok { s with tcpHandlers := s.tcpHandlers.free p }

def eraseConnection (s : NetWorkSystem) (bev : ℕ) : Exec NetWorkSystem := do
  let (_, bev) ← deref s.bufferevents (some bev)
  let bufferfd := bev.fd
  let s := { s with openFds := s.openFds.erase bufferfd }
  match s.m_mapTcpHandlers[bufferfd]? with
  | none => pure s
  | some none => pure { s with m_mapTcpHandlers := s.m_mapTcpHandlers.erase bufferfd }
  | some (some p) => do
    let (p, tcpHandler) ← deref s.tcpHandlers (some p)
    let s := { s with m_mapConHandlers := s.m_mapConHandlers.erase tcpHandler.m_nConnId }
    let s ← s.deleteTcpHandler p tcpHandler
    pure { s with m_mapTcpHandlers := s.m_mapTcpHandlers.erase bufferfd }

/-! ## Reading -/

/-- Push what the handler at `p` has received into the stream of its worker. -/
def pushToWorker (s : NetWorkSystem) (p : ℕ) (tcpHandler : TcpHandler) : Exec NetWorkSystem := do
  let k := shard tcpHandler.m_nConnId
  let worker := s.m_pNetWorkers k
  let (worker', tcpHandler) ← worker.pushNodeInStream mallocOk tcpHandler
  let new := worker'.m_msgInStream.m_listConMsg.drop worker.m_msgInStream.m_listConMsg.length
  pure { s with
    m_pNetWorkers := Function.update s.m_pNetWorkers k worker'
    tcpHandlers := s.tcpHandlers.set p tcpHandler
    inserted := Function.update s.inserted k (s.inserted k ++ new) }

variable (L : IntLayout)

/-- `dealReadEvent`. The handler is found by the descriptor of the bufferevent the callback is
for, and reads from its own one. -/
def dealReadEvent (s : NetWorkSystem) (bev : ℕ) : Exec NetWorkSystem := do
  let (_, bufferevent) ← deref s.bufferevents (some bev)
  match s.m_mapTcpHandlers[bufferevent.fd]? with
  | none => pure s
  | some p => do
    let (p, tcpHandler) ← deref s.tcpHandlers p
    let (b, own) ← deref s.bufferevents tcpHandler.m_pBufferevent
    let r ← tcpHandler.dealReadEvent L mallocOk 1 own.input
    let s := { s with
      tcpHandlers := s.tcpHandlers.set p r.handler
      bufferevents := s.bufferevents.set b { own with input := r.inputBuf } }
    if r.success = 0 then s.eraseConnection bev
    else s.pushToWorker p r.handler

/-! ## Handling a message -/

variable (P : Protobuf)

def getHandlerByConnId (s : NetWorkSystem) (connId : UInt64) : Option ℕ :=
  s.m_mapConHandlers[connId]?.join

/-- `HandleTestMsg`. `written` is whether `bufferevent_write` takes the bytes. -/
def handleTestMsg (written : Bool) (msgNode : ConMsgNode) (s : NetWorkSystem) :
    Exec NetWorkSystem := do
  let msgId := msgNode.mMsgNode.getMsgId
  let buf ← msgNode.mMsgNode.getMsgData
  match P.parseFromString buf with
  | none => pure s
  | some m_smartTest =>
    match s.getHandlerByConnId msgNode.mConnId with
    | none => pure s
    | some p => do
      let strTest := P.serializeToString m_smartTest
      let (_, tcpHandler) ← deref s.tcpHandlers (some p)
      let (b, bev) ← deref s.bufferevents tcpHandler.m_pBufferevent
      let output := TcpHandler.dealWriteEvent L written bev.output msgId strTest
      pure { s with bufferevents := s.bufferevents.set b { bev with output } }

/-- The functions that can be registered. -/
def call (written : Bool) : MsgFunc → ConMsgNode → NetWorkSystem → Exec NetWorkSystem
  | .HandleTestMsg => handleTestMsg L P written

/-- A step of worker `k`'s thread, with the message it hands to `handleMsg`, if any. -/
def threadStep (t : MsgHandler) (s : NetWorkSystem) (k : Fin 2) (written : Bool) :
    Exec NetWorkSystem := do
  let (worker, out) ← (s.m_pNetWorkers k).threadStep mallocOk
  let s := { s with m_pNetWorkers := Function.update s.m_pNetWorkers k worker }
  match out with
  | none => pure s
  | some msgNode => do
    let s := { s with handled := Function.update s.handled k (s.handled k ++ [msgNode]) }
    let (s, _) ← t.handleMsg (call L P written) msgNode s
    pure s

/-! ## Runs -/

inductive Event
  /-- A connection is accepted, with descriptor `fd`. -/
  | accept (fd : ℤ)
  | arrive (bev : ℕ) (bytes : List UInt8)
  | read (bev : ℕ)
  | error (bev : ℕ)
  | thread (k : Fin 2) (written : Bool)

/-- Bytes arrive on a bufferevent. -/
def arrive (s : NetWorkSystem) (bev : ℕ) (bytes : List UInt8) : NetWorkSystem :=
  match s.bufferevents.get? bev with
  | none => s
  | some b =>
    { s with
      bufferevents := s.bufferevents.set bev
        { b with input := b.input ++ bytes, arrived := b.arrived ++ bytes } }

/-- One event. A descriptor that is open is not handed out, and there are no callbacks for a
bufferevent that was never created: then nothing happens. -/
def step (t : MsgHandler) (s : NetWorkSystem) : Event → Exec NetWorkSystem
  | .accept fd => .ok (if fd ∈ s.openFds then s else s.listener_read_cb fd)
  | .arrive bev bytes => .ok (s.arrive bev bytes)
  | .read bev => if bev < s.bufferevents.next then s.dealReadEvent L bev else .ok s
  | .error bev => if bev < s.bufferevents.next then s.eraseConnection bev else .ok s
  | .thread k written => s.threadStep L P t k written

/-- The messages are registered, and then the events happen. -/
def run (events : List Event) : Exec NetWorkSystem := do
  let t ← MsgHandler.started
  events.foldlM (step L P t) initial

end NetWorkSystem

end SmartServer
