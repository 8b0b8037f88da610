import SmartServer.Replies

/-!
# From the wire to the handler

A message a worker takes from its batch has been copied five times since it was received, and is
still the packet that came over the wire, the next one of its connection (`popped_frame`). Two
things then go wrong with it.

* `getMsgData_iff`: the handler gets its bytes as a C string, so it gets all of them exactly when
  there is no zero byte among them.
* `dispatched_iff`: the reader lets through all ids up to `MAXMESSAGEID`, and `handleMsg` looks up
  all of these, but only `TESTMSGSID` is registered. Every other id makes it read through `NULL`.
-/

namespace SmartServer

namespace NetWorkSystem

variable {L : IntLayout} {P : Protobuf} {s : NetWorkSystem} {k : Fin 2} {worker : NetWorker}
  {msgNode : ConMsgNode}

/-- `m` is the next packet of the message's connection, and the message is a copy of it. -/
structure IsFrame (L : IntLayout) (s : NetWorkSystem) (msgNode : ConMsgNode) (m : Message) :
    Prop where
  message : msgNode.mMsgNode.message = m
  isCopy : msgNode.mMsgNode.IsCopy
  received : ∃ b bev, (msgNode.mConnId, b) ∈ s.connections ∧ s.bufferevents.get? b = some bev ∧
    m ∈ (decode L bev.arrived).1 ∧
    (s.Few → (decode L bev.arrived).1[(ofConn s.handled msgNode.mConnId).length]? = some m)

/-- **Nothing is lost on the way.** -/
theorem popped_frame (hi : Inv L s)
    (hpop : (s.m_pNetWorkers k).threadStep mallocOk = .ok (worker, some msgNode)) :
    IsFrame L s msgNode msgNode.mMsgNode.message := by
  obtain ⟨-, hk, b, bev, hb, hid, hdec⟩ := hi.popped hpop
  have hcopy := ((hi.base.workers k).step hpop).2 msgNode (by simp)
  have hi₁ := hi.stepped hpop
  refine ⟨rfl, hcopy, b, bev, ?_, hb, hdec, ?_⟩
  · exact hi.base.objects.mem_connections.mpr ⟨Heap.lt_next_of_get? hb, hid⟩
  · intro hfew
    -- the handled messages, with this one behind them, are a prefix of the packets
    have hlog : messagesOf (s.stepped k worker (some msgNode)).handled msgNode.mConnId =
        messagesOf s.handled msgNode.mConnId ++ [msgNode.mMsgNode.message] := by
      rw [messagesOf, ofConn_handled hk, if_pos rfl, List.map_append]
      rfl
    have hle : messagesOf (s.stepped k worker (some msgNode)).handled msgNode.mConnId <+:
        (decode L bev.arrived).1 := by
      rw [hid]
      exact (hi₁.handled_le _).trans (hi₁.base.inserted hfew b bev hb)
    obtain ⟨rest, hrest⟩ := hle
    have hlen : (ofConn s.handled msgNode.mConnId).length =
        (messagesOf s.handled msgNode.mConnId).length := (List.length_map _).symm
    rw [← hrest, hlog, hlen, List.append_assoc, List.getElem?_append_right le_rfl, Nat.sub_self]
    rfl

/-! ## The string the handler gets -/

theorem getMsgData_eq_iff {n : MsgNode} (h : n.IsCopy) :
    n.getMsgData = .ok n.payload ↔ 0 ∉ n.payload := by
  have hdata := MsgNode.getMsgData_copied h.copyable
  rw [h.copied] at hdata
  rw [hdata, Except.ok.injEq, List.takeWhile_eq_self_iff]
  constructor
  · intro hall hzero
    simpa using hall 0 hzero
  · intro hzero b hb
    simp only [ne_eq, decide_not, Bool.not_eq_eq_eq_not, Bool.not_true, decide_eq_false_iff_not]
    rintro rfl
    exact hzero hb

/-- **Payload fidelity.** A message that is handed to `handleMsg` has the id of the next packet of
its connection, and its string is the payload of the packet if and only if that has no zero
byte. -/
theorem getMsgData_iff (L : IntLayout) (P : Protobuf) (events : List Event) (s : NetWorkSystem)
    (hrun : run L P events = .ok s) (k : Fin 2) (worker : NetWorker) (msgNode : ConMsgNode)
    (hpop : (s.m_pNetWorkers k).threadStep mallocOk = .ok (worker, some msgNode)) :
    ∃ m, IsFrame L s msgNode m ∧
      (msgNode.mMsgNode.getMsgId = m.1 ∧ msgNode.mMsgNode.getMsgData = .ok m.2 ↔ 0 ∉ m.2) := by
  have hframe := popped_frame (run_inv hrun) hpop
  refine ⟨_, hframe, ?_⟩
  exact (and_iff_right rfl).trans (getMsgData_eq_iff hframe.isCopy)

/-- A client connects and sends one message. The worker takes it as its batch. -/
def oneMessage (message : List UInt8) : List Event :=
  [.accept 5, .arrive 0 message, .read 0, .thread 1 true, .thread 1 true, .thread 1 true]

/-- What worker `1` hands to `handleMsg` next, after a run. -/
def nextMessage (events : List Event) : Exec (Option ConMsgNode) := do
  let s ← events.foldlM (step .little echo .firstRegistered) initial
  let (_, out) ← (s.m_pNetWorkers 1).threadStep mallocOk
  pure out

theorem of_nextMessage {events : List Event} {msgNode : ConMsgNode}
    (h : nextMessage events = .ok (some msgNode)) :
    ∃ s worker, run .little echo events = .ok s ∧
      (s.m_pNetWorkers 1).threadStep mallocOk = .ok (worker, some msgNode) := by
  obtain ⟨s, hs, h⟩ := Run.of_bind h
  obtain ⟨⟨worker, out⟩, hthread, h⟩ := Run.of_bind h
  obtain rfl := Except.ok.inj h
  exact ⟨s, worker, (run_eq _ _ _).trans hs, hthread⟩

theorem getMsgData_iff_example :
    ∃ s worker msgNode, run .little echo (oneMessage [0, 0, 0, 0, 2, 0, 0, 0, 65, 66]) = .ok s ∧
      (s.m_pNetWorkers 1).threadStep mallocOk = .ok (worker, some msgNode) ∧
      msgNode.mMsgNode.getMsgId = 0 ∧ msgNode.mMsgNode.getMsgData = .ok [65, 66] := by
  obtain ⟨msgNode, hnext, hm⟩ : ∃ msgNode,
      nextMessage (oneMessage [0, 0, 0, 0, 2, 0, 0, 0, 65, 66]) = .ok (some msgNode) ∧
        msgNode.mMsgNode.message = (0, [65, 66]) := ⟨_, rfl, by decide⟩
  obtain ⟨s, worker, hrun, hpop⟩ := of_nextMessage hnext
  obtain ⟨m, hframe, hiff⟩ := getMsgData_iff .little echo _ s hrun 1 worker msgNode hpop
  obtain rfl : m = (0, [65, 66]) := hframe.message.symm.trans hm
  obtain ⟨hid, hdata⟩ := hiff.mpr (by decide)
  exact ⟨s, worker, msgNode, hrun, hpop, hid, hdata⟩

/-- A payload with a zero byte at its end loses that. -/
theorem getMsgData_truncated :
    ∃ s worker msgNode, run .little echo (oneMessage [0, 0, 0, 0, 2, 0, 0, 0, 65, 0]) = .ok s ∧
      (s.m_pNetWorkers 1).threadStep mallocOk = .ok (worker, some msgNode) ∧
      msgNode.mMsgNode.message = (0, [65, 0]) ∧ msgNode.mMsgNode.getMsgData = .ok [65] ∧
      msgNode.mMsgNode.getMsgData ≠ .ok [65, 0] := by
  obtain ⟨msgNode, hnext, hm, hdata⟩ : ∃ msgNode,
      nextMessage (oneMessage [0, 0, 0, 0, 2, 0, 0, 0, 65, 0]) = .ok (some msgNode) ∧
        msgNode.mMsgNode.message = (0, [65, 0]) ∧ msgNode.mMsgNode.getMsgData = .ok [65] :=
    ⟨_, rfl, by decide, rfl⟩
  obtain ⟨s, worker, hrun, hpop⟩ := of_nextMessage hnext
  exact ⟨s, worker, msgNode, hrun, hpop, hm, hdata, by simp [hdata]⟩

/-! ## Dispatch -/

/-- The reader lets no other ids through. -/
theorem IsFrame.id_le {m : Message} (h : IsFrame L s msgNode m) : m.1 ≤ MAXMESSAGEID := by
  obtain ⟨b, bev, -, -, hdec, -⟩ := h.received
  exact ((valid_decode L bev.arrived).1 m hdec).1

/-- **Dispatch.** A message that is handed to `handleMsg` has the id of a packet of its connection,
and `handleMsg` calls the function registered for that, or returns `false`, if and only if it is
`TESTMSGSID`. -/
theorem dispatched_iff (L : IntLayout) (P : Protobuf) (events : List Event) (s : NetWorkSystem)
    (hrun : run L P events = .ok s) (k : Fin 2) (worker : NetWorker) (msgNode : ConMsgNode)
    (hpop : (s.m_pNetWorkers k).threadStep mallocOk = .ok (worker, some msgNode)) :
    ∃ t m, MsgHandler.started = .ok t ∧ IsFrame L s msgNode m ∧
      (t.Dispatched msgNode ↔ m.1 = TESTMSGSID) := by
  obtain ⟨t, ht, hreg⟩ := MsgHandler.registered_started
  have hframe := popped_frame (run_inv hrun) hpop
  exact ⟨t, _, ht, hframe, MsgHandler.handleMsg_registered_iff hreg hframe.id_le⟩

theorem dispatched_iff_example :
    ∃ s worker msgNode t, run .little echo (oneMessage [0, 0, 0, 0, 2, 0, 0, 0, 65, 66]) = .ok s ∧
      (s.m_pNetWorkers 1).threadStep mallocOk = .ok (worker, some msgNode) ∧
      MsgHandler.started = .ok t ∧ t.Dispatched msgNode := by
  obtain ⟨msgNode, hnext, hm⟩ : ∃ msgNode,
      nextMessage (oneMessage [0, 0, 0, 0, 2, 0, 0, 0, 65, 66]) = .ok (some msgNode) ∧
        msgNode.mMsgNode.message = (0, [65, 66]) := ⟨_, rfl, by decide⟩
  obtain ⟨s, worker, hrun, hpop⟩ := of_nextMessage hnext
  obtain ⟨t, m, ht, hframe, hiff⟩ := dispatched_iff .little echo _ s hrun 1 worker msgNode hpop
  obtain rfl : m = (0, [65, 66]) := hframe.message.symm.trans hm
  exact ⟨s, worker, msgNode, t, hrun, hpop, ht, hiff.mpr rfl⟩

/-- The first message of `client.cpp`. -/
def clientMessage : List UInt8 :=
  [55, 0, 0, 0, 10, 0, 0, 0, 49, 50, 51, 52, 53, 54, 55, 56, 57, 48]

set_option maxRecDepth 20000 in
theorem clientMessage_nullDeref :
    (∃ s worker msgNode t, run .little echo (oneMessage clientMessage) = .ok s ∧
      (s.m_pNetWorkers 1).threadStep mallocOk = .ok (worker, some msgNode) ∧
      MsgHandler.started = .ok t ∧ ¬ t.Dispatched msgNode) ∧
    run .little echo (oneMessage clientMessage ++ [.thread 1 true]) = .error .nullDeref := by
  constructor
  · obtain ⟨msgNode, hnext, hid⟩ : ∃ msgNode,
        nextMessage (oneMessage clientMessage) = .ok (some msgNode) ∧
          msgNode.mMsgNode.getMsgId = 55 := ⟨_, rfl, by decide⟩
    obtain ⟨s, worker, hrun, hpop⟩ := of_nextMessage hnext
    obtain ⟨t, ht, hreg⟩ := MsgHandler.registered_started
    refine ⟨s, worker, msgNode, t, hrun, hpop, ht, ?_⟩
    rw [MsgHandler.handleMsg_registered_iff hreg (by rw [hid]; decide), hid]
    decide
  · rw [run_eq]
    rfl

end NetWorkSystem

end SmartServer
