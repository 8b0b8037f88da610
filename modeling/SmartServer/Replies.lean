import SmartServer.SystemProgress

/-!
# Replies go where their requests came from

**Theorem (`replies_routed`).** However the network thread and the two workers take their steps:
what was written to a bufferevent is a sequence of replies, each to a message of the connection
that was accepted with it, at most one to each message, in the order the messages were parsed; and
nothing is written for a connection that was erased, whoever uses its descriptor now. When all
messages have the registered id and announce lengths that are neither `0` nor negative, no step
faults.

A reply is routed through `m_mapConHandlers` alone, and that never maps an id to anything but the
handler of its connection, whose bufferevent is its own (`Objects.conMap`, `Connected`). So the
descriptors play no part, and an id that is no longer in the map is answered by nobody; ids do not
come back before the count wraps.
-/

namespace SmartServer

namespace NetWorkSystem

variable {L : IntLayout} {P : Protobuf} {t : MsgHandler} {s s' : NetWorkSystem}

/-! ## Answers -/

/-- `output` is a sequence of replies to some of the messages `handled`, in their order. -/
def Answered (L : IntLayout) (P : Protobuf) (handled : List ConMsgNode) (output : List UInt8) :
    Prop :=
  ∃ answered replies, List.Sublist answered handled ∧
    List.Forall₂ (Replies P) answered replies ∧ output = TcpHandler.writeEvents L replies

theorem answered_nil (L : IntLayout) (P : Protobuf) (handled : List ConMsgNode) :
    Answered L P handled [] :=
  ⟨[], [], List.nil_sublist _, .nil, rfl⟩

theorem Answered.mono {handled handled' : List ConMsgNode} {output : List UInt8}
    (h : Answered L P handled output) (hsub : handled.Sublist handled') :
    Answered L P handled' output := by
  obtain ⟨answered, replies, hans, hreplies, hout⟩ := h
  exact ⟨answered, replies, hans.trans hsub, hreplies, hout⟩

theorem Answered.write {handled : List ConMsgNode} {output : List UInt8}
    (h : Answered L P handled output) {msgNode : ConMsgNode} {reply : Message}
    (hr : Replies P msgNode reply) (written : Bool) :
    Answered L P (handled ++ [msgNode])
      (TcpHandler.dealWriteEvent L written output reply.1 reply.2) := by
  cases written with
  | false => exact h.mono (List.sublist_append_left _ _)
  | true =>
    obtain ⟨answered, replies, hans, hreplies, rfl⟩ := h
    refine ⟨answered ++ [msgNode], replies ++ [reply], hans.append (List.Sublist.refl _), ?_, ?_⟩
    · exact List.rel_append hreplies (.cons hr .nil)
    · rw [TcpHandler.writeEvents, TcpHandler.writeEvents, List.foldl_append]
      rfl

/-! ## One step of a worker -/

/-- What a worker hands on belongs to the worker's connections, and comes after what it has handed
on before. -/
theorem Inv.popped (hi : Inv L s) {k : Fin 2} {worker : NetWorker} {msgNode : ConMsgNode}
    (hrun : (s.m_pNetWorkers k).threadStep mallocOk = .ok (worker, some msgNode)) :
    (s.handled k ++ [msgNode]).map ConMsgNode.message <+:
        (s.inserted k).map ConMsgNode.message ∧
      shard msgNode.mConnId = k ∧
      ∃ p bev, s.bufferevents.get? p = some bev ∧ msgNode.mConnId = connIdOf p ∧
        msgNode.mMsgNode.message ∈ (decode L bev.arrived).1 := by
  have hq := (hi.stepped hrun).base.queued k
  simp only [NetWorkSystem.stepped, Function.update_self] at hq
  have hle : (s.handled k ++ [msgNode]).map ConMsgNode.message <+:
      (s.inserted k).map ConMsgNode.message := ⟨_, hq⟩
  have hmem : msgNode.message ∈ (s.inserted k).map ConMsgNode.message :=
    hle.subset (List.mem_map_of_mem (List.mem_append_right _ List.mem_cons_self))
  obtain ⟨x, hx, hxm⟩ := List.mem_map.mp hmem
  obtain ⟨hid, hmsg⟩ := Prod.mk.inj hxm
  obtain ⟨p, bev, hp, hxid, hk, hdec⟩ := hi.base.origin k x hx
  exact ⟨hle, hid ▸ hk, p, bev, hp, hid ▸ hxid, hmsg ▸ hdec⟩

/-- The log of a connection after its worker has handed on one more message. -/
theorem ofConn_handled {k : Fin 2} {w : NetWorker} {msgNode : ConMsgNode}
    (hk : shard msgNode.mConnId = k) (connId : UInt64) :
    ofConn (s.stepped k w (some msgNode)).handled connId =
      if connId = msgNode.mConnId then ofConn s.handled connId ++ [msgNode]
      else ofConn s.handled connId := by
  simp only [stepped, ofConn, Option.toList_some]
  by_cases hc : connId = msgNode.mConnId
  · subst hc
    rw [if_pos rfl, hk, Function.update_self, List.filter_append]
    congr 1
    simp
  · rw [if_neg hc]
    by_cases hck : shard connId = k
    · rw [hck, Function.update_self, List.filter_append]
      simp [Ne.symm hc]
    · rw [Function.update_of_ne hck]

/-- Everything written so far is an answer. -/
def AllAnswered (L : IntLayout) (P : Protobuf) (s : NetWorkSystem) : Prop :=
  ∀ p bev, s.bufferevents.get? p = some bev →
    Answered L P (ofConn s.handled (connIdOf p)) bev.output

theorem AllAnswered.network (ha : AllAnswered L P s) (hf : NetworkFrame s s') :
    AllAnswered L P s' := by
  intro p bev' hp
  rw [hf.handled]
  cases hget : s.bufferevents.get? p with
  | none =>
    rw [hf.created p bev' hp hget]
    exact answered_nil L P _
  | some bev =>
    obtain ⟨bev₁, hget₁, -, hout⟩ := hf.kept p bev hget
    obtain rfl : bev' = bev₁ := Option.some.inj (hp.symm.trans hget₁)
    rw [hout]
    exact ha p bev hget

theorem AllAnswered.threadStep (hi : Inv L s) (ha : AllAnswered L P s) {k : Fin 2}
    {written : Bool} (hrun : s.threadStep L P t k written = .ok s') : AllAnswered L P s' := by
  obtain ⟨worker, out, hthread, hend⟩ := threadStep_inv hrun
  cases out with
  | none =>
    rcases hend with rfl | ⟨msgNode, hout, -⟩
    · intro p bev hp
      have hsame : (s.stepped k worker none).handled = s.handled := by
        simp only [stepped, Option.toList_none, List.append_nil, Function.update_eq_self]
      rw [hsame]
      exact ha p bev hp
    · cases hout
  | some msgNode =>
    obtain ⟨-, hk, -⟩ := hi.popped hthread
    have hi₁ := hi.stepped hthread
    set s₁ := s.stepped k worker (some msgNode) with hs₁
    have hlog := ofConn_handled (s := s) (w := worker) hk
    have ha₁ : AllAnswered L P s₁ := by
      intro p bev hp
      rw [hs₁, hlog]
      by_cases hc : connIdOf p = msgNode.mConnId
      · rw [if_pos hc]
        exact (ha p bev hp).mono (List.sublist_append_left _ _)
      · rw [if_neg hc]
        exact ha p bev hp
    rcases hend with rfl | ⟨msgNode', hout, hhandle⟩
    · exact ha₁
    obtain rfl := Option.some.inj hout
    rcases handleTestMsg_inv hhandle with rfl |
      ⟨p, h, b, bev, reply, hmap, hh, hbev, hb, hreply, rfl⟩
    · exact ha₁
    -- the reply goes to the bufferevent of the message's own connection
    obtain ⟨p', hpp, -, hid⟩ := hi₁.base.objects.conMap _ _ hmap
    obtain rfl := Option.some.inj hpp
    obtain rfl : b = p := Option.some.inj (hbev.symm.trans (hi₁.base.connected p h hh).2)
    intro q bev' hq
    rcases Heap.of_get?_set hb hq with ⟨rfl, rfl⟩ | ⟨-, hq⟩
    · show Answered L P (ofConn s₁.handled (connIdOf q)) _
      rw [hs₁, hlog, if_pos hid]
      exact (ha q bev hb).write hreply written
    · exact ha₁ q bev' hq

theorem run_answered {events : List Event} (hrun : run L P events = .ok s) :
    AllAnswered L P s := by
  obtain ⟨t, -, hrun⟩ := Run.of_bind hrun
  refine (Run.induction (fun _ s => Inv L s ∧ AllAnswered L P s) ?_ ?_ hrun).2
  · exact ⟨inv_initial L, fun p bev hp => by simp [initial] at hp⟩
  · intro es s e s' h hstep
    obtain ⟨hi, ha⟩ := h
    refine ⟨step_inv hi hstep, ?_⟩
    rcases e.network_or_thread with hnet | ⟨k, written, rfl⟩
    · exact ha.network (step_networkFrame hi hnet hstep)
    · exact ha.threadStep hi hstep

/-- What a worker has handled of a connection, it was given. -/
theorem Inv.handled_le (hi : Inv L s) (connId : UInt64) :
    messagesOf s.handled connId <+: messagesOf s.inserted connId :=
  messagesOf_le ⟨_, hi.base.queued (shard connId)⟩

/-! ## Connections that are erased -/

/-- The connection was accepted, and is no longer registered. -/
def Erased (s : NetWorkSystem) (connId : UInt64) : Prop :=
  connId ∈ s.connections.map Prod.fst ∧ s.m_mapConHandlers[connId]? = none

/-- That is, its handler has been deleted. -/
theorem erased_iff (hi : Inv L s) (hfew : s.Few) {p : ℕ} (hp : p < s.bufferevents.next) :
    s.Erased (connIdOf p) ↔ ¬ s.Live p := by
  have ho := hi.base.objects
  have hn : s.bufferevents.next < 2 ^ 64 := ho.length_connections ▸ hfew
  constructor
  · rintro ⟨-, hnone⟩ hlive
    rw [ho.conMap_live hfew p hlive] at hnone
    cases hnone
  · intro hdead
    refine ⟨List.mem_map_of_mem (ho.mem_connections.mpr ⟨hp, rfl⟩), ?_⟩
    by_contra hne
    obtain ⟨q, hq⟩ := Option.ne_none_iff_exists'.mp hne
    obtain ⟨p', -, hl, hid⟩ := ho.conMap _ q hq
    obtain rfl := connIdOf_inj hn (hl.lt_next ho) hp hid
    exact hdead hl

/-- What was written for a connection. -/
def outputOf (s : NetWorkSystem) (b : ℕ) : Option (List UInt8) :=
  (s.bufferevents.get? b).map Bufferevent.output

/-- A worker writes to no bufferevent but those of registered connections. -/
theorem threadStep_outputOf (hi : Inv L s) {k : Fin 2} {written : Bool}
    (hrun : s.threadStep L P t k written = .ok s') {p : ℕ}
    (hnone : s.m_mapConHandlers[connIdOf p]? = none) : s'.outputOf p = s.outputOf p := by
  obtain ⟨worker, out, hthread, rfl | ⟨msgNode, -, hhandle⟩⟩ := threadStep_inv hrun
  · rfl
  have hi₁ := hi.stepped hthread
  rcases handleTestMsg_inv hhandle with rfl | ⟨q, h, b, bev, reply, hmap, hh, hbev, hb, -, rfl⟩
  · rfl
  obtain ⟨q', hqq, -, hid⟩ := hi₁.base.objects.conMap _ _ hmap
  obtain rfl := Option.some.inj hqq
  obtain rfl : b = q := Option.some.inj (hbev.symm.trans (hi₁.base.connected q h hh).2)
  have hne : p ≠ b := by
    rintro rfl
    rw [← hid] at hmap
    exact absurd (hnone.symm.trans hmap) (fun h => by cases h)
  rw [outputOf, Heap.get?_set hb, if_neg hne]
  rfl

theorem step_connections (hi : Inv L s) {e : Event} (hstep : step L P t s e = .ok s') :
    s.connections <+: s'.connections ∧ s.bufferevents.next ≤ s'.bufferevents.next := by
  rcases e.network_or_thread with hnet | ⟨k, written, rfl⟩
  · have hf := step_networkFrame hi hnet hstep
    exact ⟨hf.connections, hf.next⟩
  · have hf := step_threadFrame hstep
    exact ⟨by rw [hf.connections], hf.next.ge⟩

/-- An erased connection stays erased, and nothing more is written for it. -/
theorem step_erased (hi : Inv L s) {p : ℕ} (hp : p < s.bufferevents.next)
    (hnone : s.m_mapConHandlers[connIdOf p]? = none) {e : Event}
    (hstep : step L P t s e = .ok s') (hfew : s'.Few) :
    s'.m_mapConHandlers[connIdOf p]? = none ∧ s'.outputOf p = s.outputOf p := by
  rcases e.network_or_thread with hnet | ⟨k, written, rfl⟩
  · have hf := step_networkFrame hi hnet hstep
    have ho' := (step_inv hi hstep).base.objects
    obtain ⟨bev, hbev⟩ := hi.base.objects.bufferevent hp
    obtain ⟨bev', hbev', -, hout⟩ := hf.kept p bev hbev
    refine ⟨?_, by rw [outputOf, outputOf, hbev, hbev', Option.map_some, Option.map_some, hout]⟩
    rcases hf.conMap _ hnone with hnone' | ⟨b, hb, hmem⟩
    · exact hnone'
    · -- the id would have been counted twice
      obtain ⟨hlt, hid⟩ := ho'.mem_connections.mp hmem
      have hn : s'.bufferevents.next < 2 ^ 64 := ho'.length_connections ▸ hfew
      have := connIdOf_inj hn (hp.trans_le hf.next) hlt hid
      omega
  · exact ⟨by rw [(step_threadFrame hstep).conMap, hnone], threadStep_outputOf hi hstep hnone⟩

theorem run_erased (hi : Inv L s) {p : ℕ} (hp : p < s.bufferevents.next)
    (hnone : s.m_mapConHandlers[connIdOf p]? = none) {after : List Event}
    (hrun : after.foldlM (step L P t) s = .ok s') (hfew : s'.Few) :
    s'.outputOf p = s.outputOf p := by
  refine ((Run.induction (fun _ s₁ => Inv L s₁ ∧ p < s₁.bufferevents.next ∧ (s₁.Few →
    s₁.m_mapConHandlers[connIdOf p]? = none ∧ s₁.outputOf p = s.outputOf p)) ?_ ?_ hrun).2.2
    hfew).2
  · exact ⟨hi, hp, fun _ => ⟨hnone, rfl⟩⟩
  · intro es s₁ e s₂ ⟨hi₁, hp₁, herased⟩ hstep
    obtain ⟨hconn, hnext⟩ := step_connections hi₁ hstep
    refine ⟨step_inv hi₁ hstep, hp₁.trans_le hnext, ?_⟩
    intro hfew₂
    obtain ⟨hnone₁, hout₁⟩ := herased (lt_of_le_of_lt hconn.length_le hfew₂)
    obtain ⟨hnone₂, hout₂⟩ := step_erased hi₁ hp₁ hnone₁ hstep hfew₂
    exact ⟨hnone₂, hout₂.trans hout₁⟩

/-! ## Steps of the workers do not fault -/

theorem mem_announcedLengths {stream : List UInt8} {m : Message}
    (hm : m ∈ (decode L stream).1) : (m.1, m.2.length) ∈ announcedLengths L stream :=
  List.mem_append_left _ (List.mem_map_of_mem hm)

/-- A copy of a message can be handled, whatever it holds. -/
theorem handleTestMsg_ok (hi : Inv L s) {msgNode : ConMsgNode}
    (hcopy : msgNode.mMsgNode.IsCopy) (written : Bool) :
    ∃ s', handleTestMsg L P written msgNode s = .ok s' := by
  have hbuf := MsgNode.getMsgData_copied hcopy.copyable
  rw [hcopy.copied] at hbuf
  simp only [handleTestMsg, hbuf, bind, Except.bind]
  split
  · exact ⟨_, rfl⟩
  · split
    · exact ⟨_, rfl⟩
    · rename_i q hq
      obtain ⟨p, hqp, hlive, -⟩ :=
        hi.base.objects.conMap _ _ (Option.join_eq_some_iff.mp hq)
      obtain rfl := Option.some.inj hqp
      obtain ⟨h, hh⟩ := Option.isSome_iff_exists.mp hlive
      obtain ⟨bev, hbev⟩ := hi.base.objects.bufferevent (hlive.lt_next hi.base.objects)
      have hown : h.m_pBufferevent = some q := (hi.base.connected q h hh).2
      simp only [deref_ok hh, hown, deref_ok hbev]
      exact ⟨_, rfl⟩

theorem threadStep_ok (ht : t.Registered) (hi : Inv L s)
    (hid : s.Announces L fun x => x.1 = TESTMSGSID) (k : Fin 2) (written : Bool) :
    ∃ s', s.threadStep L P t k written = .ok s' := by
  obtain ⟨⟨worker, out⟩, hthread⟩ := (hi.base.workers k).step_ok
  cases out with
  | none => exact ⟨_, by rw [threadStep, hthread]; rfl⟩
  | some msgNode =>
    have hcopy : msgNode.mMsgNode.IsCopy :=
      ((hi.base.workers k).step hthread).2 msgNode (by simp)
    obtain ⟨-, -, p, bev, hbev, -, hdec⟩ := hi.popped hthread
    have htest : msgNode.mMsgNode.getMsgId = TESTMSGSID :=
      hid p bev hbev _ (mem_announcedLengths hdec)
    obtain ⟨s', hs'⟩ := handleTestMsg_ok (P := P) (hi.stepped hthread) hcopy written
    have hcall : call L P written .HandleTestMsg msgNode (s.stepped k worker (some msgNode)) =
        .ok s' := hs'
    have hhandle := MsgHandler.handleMsg_registered ht htest (call L P written)
      (s.stepped k worker (some msgNode))
    rw [hcall] at hhandle
    exact ⟨s', by rw [threadStep_some hthread, hhandle]; rfl⟩

/-! ## Runs -/

/-- **Reply routing.** With nothing but messages of the registered id, whose announced lengths are
neither `0` nor negative, no step faults. To a bufferevent only replies to messages of its own
connection are written, at most one to each, in the order the messages were parsed. Nothing is
written for a connection any more once it is erased. -/
theorem replies_routed (L : IntLayout) (P : Protobuf) (events : List Event) (s : NetWorkSystem)
    (hrun : run L P events = .ok s)
    (hmsgs : s.Announces L fun x => x.1 = TESTMSGSID ∧ 1 ≤ x.2 ∧ x.2 < 2 ^ 31) (hfew : s.Few) :
    (∀ e : Event, ∃ s', run L P (events ++ [e]) = .ok s') ∧
      (∀ b bev, s.bufferevents.get? b = some bev →
        ∃ connId, (∀ b', (connId, b') ∈ s.connections ↔ b' = b) ∧
          Answered L P (ofConn s.handled connId) bev.output ∧
          messagesOf s.handled connId <+: (decode L bev.arrived).1) ∧
      ∀ connId b, (connId, b) ∈ s.connections → s.Erased connId → ∀ after s',
        run L P (events ++ after) = .ok s' → s'.Few → s'.outputOf b = s.outputOf b := by
  have hi := run_inv hrun
  have ho := hi.base.objects
  have hn : s.bufferevents.next < 2 ^ 64 := ho.length_connections ▸ hfew
  obtain ⟨t, ht, hfold⟩ := Run.of_bind hrun
  refine ⟨?_, ?_, ?_⟩
  · intro e
    rw [run_concat hrun ht]
    rcases e.network_or_thread with hnet | ⟨k, written, rfl⟩
    · have hlen : s.Announces L fun x => 1 ≤ x.2 ∧ x.2 < 2 ^ 31 := hmsgs.mono fun _ h => h.2
      obtain ⟨s', hs', -⟩ := step_network_ok (P := P) (t := t) hi (run_ready hrun hlen) hlen hnet
      exact ⟨s', hs'⟩
    · obtain ⟨t', ht', hreg⟩ := MsgHandler.registered_started
      obtain rfl := Except.ok.inj (ht.symm.trans ht')
      exact threadStep_ok hreg hi (hmsgs.mono fun _ h => h.1) k written
  · intro b bev hb
    have hlt := Heap.lt_next_of_get? hb
    refine ⟨connIdOf b, ?_, run_answered hrun b bev hb,
      (hi.handled_le _).trans (hi.base.inserted hfew b bev hb)⟩
    intro b'
    rw [ho.mem_connections]
    constructor
    · rintro ⟨hlt', hid⟩
      exact (connIdOf_inj hn hlt hlt' hid).symm
    · rintro rfl
      exact ⟨hlt, rfl⟩
  · intro connId b hmem herased after s' hrun' hfew'
    obtain ⟨hb, rfl⟩ := ho.mem_connections.mp hmem
    rw [run, ht] at hrun'
    change (events ++ after).foldlM (step L P t) initial = .ok s' at hrun'
    rw [List.foldlM_append] at hrun'
    obtain ⟨s₁, hs₁, hafter⟩ := Run.of_bind hrun'
    obtain rfl := Except.ok.inj (hs₁.symm.trans hfold)
    exact run_erased hi hb herased.2 hafter hfew'

/-- All tables with the registrations make the same steps. -/
theorem step_congr {t t' : MsgHandler} (ht : t.Registered) (ht' : t'.Registered) :
    step L P t = step L P t' := by
  funext s e
  cases e with
  | thread k written => simp only [step, threadStep, MsgHandler.handleMsg_congr ht ht']
  | _ => rfl

/-- A run can be followed with the table after the first registration. -/
theorem run_eq (L : IntLayout) (P : Protobuf) (events : List Event) :
    run L P events = events.foldlM (step L P .firstRegistered) initial :=
  MsgHandler.started_bind fun ht ht' => by rw [step_congr ht ht']

/-- The first connection fails while its message is in the batch, and its descriptor is handed out
again. The message is handled then, and gets no reply; that of the second connection does. -/
def lateRequest : List Event :=
  [.accept 5, .arrive 0 [0, 0, 0, 0, 1, 0, 0, 0, 65], .read 0, .thread 1 true, .thread 1 true,
    .thread 1 true, .error 0, .accept 5, .arrive 1 [0, 0, 0, 0, 1, 0, 0, 0, 66], .read 1,
    .thread 1 true, .thread 0 true, .thread 0 true, .thread 0 true, .thread 0 true]

set_option maxRecDepth 20000 in
theorem replies_routed_lateRequest :
    ∃ s, run .little echo lateRequest = .ok s ∧ s.outputOf 0 = some [] ∧
      s.outputOf 1 = some [0, 0, 0, 0, 1, 0, 0, 0, 66] ∧
      (∀ e : Event, ∃ s', run .little echo (lateRequest ++ [e]) = .ok s') ∧
      ∀ after s', run .little echo (lateRequest ++ after) = .ok s' → s'.Few →
        s'.outputOf 0 = s.outputOf 0 := by
  obtain ⟨s, hs, hmsgs, hfew, hmem, herased, hfirst, hsecond⟩ :
      ∃ s, lateRequest.foldlM (step .little echo .firstRegistered) initial = .ok s ∧
        (∀ c ∈ s.bufferevents.cells, ∀ bev ∈ c, ∀ x ∈ announcedLengths .little bev.arrived,
          x.1 = TESTMSGSID ∧ 1 ≤ x.2 ∧ x.2 < 2 ^ 31) ∧
        s.connections.length < 2 ^ 64 ∧ (1, 0) ∈ s.connections ∧
        (1 ∈ s.connections.map Prod.fst ∧ s.m_mapConHandlers[(1 : UInt64)]? = none) ∧
        s.outputOf 0 = some [] ∧ s.outputOf 1 = some [0, 0, 0, 0, 1, 0, 0, 0, 66] :=
    ⟨_, rfl, by decide, by decide, by decide, by decide, by decide, by decide⟩
  have hrun : run .little echo lateRequest = .ok s := (run_eq _ _ _).trans hs
  obtain ⟨hok, -, hsilent⟩ := replies_routed .little echo lateRequest s hrun
    (fun b bev hb => Heap.forall_get? hmsgs hb) hfew
  exact ⟨s, hrun, hfirst, hsecond, hok, hsilent 1 0 hmem herased⟩

end NetWorkSystem

end SmartServer
