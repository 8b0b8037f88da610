import SmartServer.Delivery
import SmartServer.WorkerDrain

/-!
# Every request is answered

**Theorem (`all_answered`).** On a connection that stays alive, after a read event and every
schedule in which each worker takes as many steps as it needs, the replies to all the packets that
have arrived are written, each once and in their order.

* *Nothing else is written* (`run_answers`): at all times what was written to a connection that is
  alive are the replies to what was handled of it.
* *All that is inserted is handled* (`all_handled`): no worker faults, each of its steps is one of
  those it still needs, and one worker's steps leave the other's alone.
* *All that arrives is inserted* (`read_inserted`): a read event leaves no whole packet behind.

The messages are counted in `UInt32`s, so there must be fewer than `2 ^ 32` of them.

**Theorem (`replies_independent`).** So what a client is answered depends only on the bytes that
have arrived from it.
-/

namespace SmartServer

open TcpHandler (Follows)

namespace NetWorkSystem

variable {L : IntLayout} {P : Protobuf} {t : MsgHandler} {s s' : NetWorkSystem}

/-! ## Replies -/

/-- What a message is answered with, if it can be parsed. -/
def replyTo (P : Protobuf) (m : Message) : Option Message :=
  (P.parseFromString (m.2.takeWhile (· ≠ 0))).map fun test => (m.1, P.serializeToString test)

/-- The replies to these messages, as they are written. -/
def repliesTo (L : IntLayout) (P : Protobuf) (ms : List Message) : List UInt8 :=
  TcpHandler.writeEvents L (ms.filterMap (replyTo P))

theorem repliesTo_append (ms : List Message) (m : Message) :
    repliesTo L P (ms ++ [m]) =
      match replyTo P m with
      | none => repliesTo L P ms
      | some reply => TcpHandler.dealWriteEvent L true (repliesTo L P ms) reply.1 reply.2 := by
  rw [repliesTo, List.filterMap_append]
  cases hreply : replyTo P m with
  | none =>
    rw [List.filterMap_cons_none hreply, List.filterMap_nil, List.append_nil]
    rfl
  | some reply =>
    rw [List.filterMap_cons_some hreply, List.filterMap_nil, TcpHandler.writeEvents,
      List.foldl_append]
    rfl

/-- On a connection that is alive a message is answered. -/
theorem handleTestMsg_live (hi : Inv L s) (hfew : s.Few) {p : ℕ} {bev : Bufferevent}
    (hlive : s.Live p) (hbev : s.bufferevents.get? p = some bev) {msgNode : ConMsgNode}
    (hcopy : msgNode.mMsgNode.IsCopy) (hid : connIdOf p = msgNode.mConnId) :
    handleTestMsg L P true msgNode s =
      .ok (match replyTo P msgNode.mMsgNode.message with
        | none => s
        | some reply => { s with bufferevents := s.bufferevents.set p { bev with
            output := TcpHandler.dealWriteEvent L true bev.output reply.1 reply.2 } }) := by
  have hdata := MsgNode.getMsgData_copied hcopy.copyable
  rw [hcopy.copied] at hdata
  have hget : s.getHandlerByConnId msgNode.mConnId = some p := by
    rw [getHandlerByConnId, ← hid, hi.base.objects.conMap_live hfew p hlive]
    rfl
  obtain ⟨h, hh⟩ := Option.isSome_iff_exists.mp hlive
  have hown : h.m_pBufferevent = some p := (hi.base.connected p h hh).2
  simp only [handleTestMsg, hdata, hget, deref_ok hh, hown, deref_ok hbev, bind, Except.bind,
    replyTo, MsgNode.message]
  cases P.parseFromString (msgNode.mMsgNode.payload.takeWhile (· ≠ 0)) <;> rfl

/-! ## Everything is answered -/

/-- What was written to a connection that is alive are the replies to what was handled of it. -/
def Answers (L : IntLayout) (P : Protobuf) (s : NetWorkSystem) : Prop :=
  ∀ p bev, s.Live p → s.bufferevents.get? p = some bev →
    bev.output = repliesTo L P (messagesOf s.handled (connIdOf p))

theorem messagesOf_handled {k : Fin 2} {msgNode : ConMsgNode}
    (hk : shard msgNode.mConnId = k) (worker : NetWorker) (connId : UInt64) :
    messagesOf (s.stepped k worker (some msgNode)).handled connId =
      if connId = msgNode.mConnId then messagesOf s.handled connId ++ [msgNode.mMsgNode.message]
      else messagesOf s.handled connId := by
  rw [messagesOf, ofConn_handled hk]
  split
  · rw [List.map_append]
    rfl
  · rfl

/-- A message that is handed to `handleMsg` without a fault is handled. -/
theorem threadStep_handled (hi : Inv L s) (ht : t.Registered) {k : Fin 2} {worker : NetWorker}
    {msgNode : ConMsgNode} {written : Bool}
    (hthread : (s.m_pNetWorkers k).threadStep mallocOk = .ok (worker, some msgNode))
    (hrun : s.threadStep L P t k written = .ok s') :
    handleTestMsg L P written msgNode (s.stepped k worker (some msgNode)) = .ok s' := by
  obtain ⟨-, -, p, bev, -, -, hdec⟩ := hi.popped hthread
  have hmax : msgNode.mMsgNode.getMsgId ≤ MAXMESSAGEID :=
    ((valid_decode L bev.arrived).1 _ hdec).1
  rw [threadStep_some hthread] at hrun
  by_cases hid : msgNode.mMsgNode.getMsgId = TESTMSGSID
  · rw [MsgHandler.handleMsg_registered ht hid] at hrun
    cases hcall : handleTestMsg L P written msgNode (s.stepped k worker (some msgNode)) with
    | error f =>
      rw [call, hcall] at hrun
      cases hrun
    | ok s₁ =>
      rw [call, hcall] at hrun
      exact congrArg Except.ok (Except.ok.inj hrun)
  · rw [MsgHandler.handleMsg_unregistered ht hmax hid] at hrun
    cases hrun

theorem Answers.threadStep (hi : Inv L s) (ht : t.Registered) (hfew : s.Few) (ha : Answers L P s)
    {k : Fin 2} (hrun : s.threadStep L P t k true = .ok s') : Answers L P s' := by
  obtain ⟨worker, out, hthread, hend⟩ := threadStep_inv hrun
  cases out with
  | none =>
    rcases hend with rfl | ⟨msgNode, hout, -⟩
    · have hsame : (s.stepped k worker none).handled = s.handled := by
        simp only [stepped, Option.toList_none, List.append_nil, Function.update_eq_self]
      intro p bev hlive hbev
      rw [hsame]
      exact ha p bev hlive hbev
    · cases hout
  | some msgNode =>
    have hcopy : msgNode.mMsgNode.IsCopy :=
      ((hi.base.workers k).step hthread).2 msgNode (by simp)
    obtain ⟨-, hk, -⟩ := hi.popped hthread
    have hhandle := threadStep_handled hi ht hthread hrun
    have hi₁ := hi.stepped hthread
    have hlog := messagesOf_handled (s := s) hk worker
    intro p bev' hlive' hbev'
    have hlive : (s.stepped k worker (some msgNode)).Live p := by
      rwa [Live, (step_threadFrame hrun).tcpHandlers] at hlive'
    obtain ⟨bev, hbev⟩ := hi.base.objects.bufferevent (hlive.lt_next hi₁.base.objects)
    by_cases hid : connIdOf p = msgNode.mConnId
    · have hmsgs : messagesOf s'.handled (connIdOf p) =
          messagesOf s.handled (connIdOf p) ++ [msgNode.mMsgNode.message] := by
        have hsame : s'.handled = (s.stepped k worker (some msgNode)).handled := by
          rcases handleTestMsg_inv hhandle with rfl | ⟨_, _, _, _, _, -, -, -, -, -, rfl⟩ <;> rfl
        rw [hsame, hlog, if_pos hid]
      rw [handleTestMsg_live hi₁ hfew hlive hbev hcopy hid] at hhandle
      obtain rfl := Except.ok.inj hhandle
      rw [hmsgs, repliesTo_append, ← ha p bev hlive hbev]
      cases hreply : replyTo P msgNode.mMsgNode.message with
      | none =>
        rw [hreply] at hbev'
        obtain rfl : bev = bev' := Option.some.inj (hbev.symm.trans hbev')
        rfl
      | some reply =>
        rw [hreply] at hbev'
        simp only [Heap.get?_set (show (s.stepped k worker (some msgNode)).bufferevents.get? p =
          some bev from hbev), if_true] at hbev'
        obtain rfl := Option.some.inj hbev'
        rfl
    · rcases handleTestMsg_inv hhandle with rfl | ⟨q, h, b, bevq, reply, hmap, hh, hown, hb, -, rfl⟩
      · rw [hlog, if_neg hid]
        exact ha p bev' hlive hbev'
      · obtain ⟨q', hqq, -, hidq⟩ := hi₁.base.objects.conMap _ _ hmap
        obtain rfl := Option.some.inj hqq
        obtain rfl : b = q := Option.some.inj (hown.symm.trans (hi₁.base.connected q h hh).2)
        rcases Heap.of_get?_set hb hbev' with ⟨rfl, -⟩ | ⟨-, hbev'⟩
        · exact absurd hidq hid
        · show bev'.output = repliesTo L P
            (messagesOf (s.stepped k worker (some msgNode)).handled (connIdOf p))
          rw [hlog, if_neg hid]
          exact ha p bev' hlive hbev'

/-- Nothing was inserted for a connection there has not been. -/
theorem messagesOf_inserted_new (hi : Inv L s) {n p : ℕ} (hn : n < 2 ^ 64) (hp : p < n)
    (hle : s.bufferevents.next ≤ n) (hnew : s.bufferevents.next ≤ p) :
    messagesOf s.inserted (connIdOf p) = [] := by
  rw [messagesOf, List.map_eq_nil_iff, ofConn, List.filter_eq_nil_iff]
  intro x hx hid
  obtain ⟨q, bev, hq, hxq, -, -⟩ := hi.base.origin _ x hx
  have hlt := Heap.lt_next_of_get? hq
  have hpq := connIdOf_inj hn (hlt.trans_le hle) hp (hxq.symm.trans (of_decide_eq_true hid))
  omega

/-- A connection that is alive has been since it was accepted. -/
theorem live_of_step (hi : Inv L s) {e : Event} (hstep : step L P t s e = .ok s') (hfew : s'.Few)
    {p : ℕ} (hp : p < s.bufferevents.next) (hlive : s'.Live p) : s.Live p := by
  by_contra hdead
  obtain ⟨hconn, -⟩ := step_connections hi hstep
  have hfew₀ : s.Few := lt_of_le_of_lt hconn.length_le hfew
  have hnone := ((erased_iff hi hfew₀ hp).mpr hdead).2
  have hnone' := (step_erased hi hp hnone hstep hfew).1
  rw [(step_inv hi hstep).base.objects.conMap_live hfew p hlive] at hnone'
  cases hnone'

theorem Answers.network (hi : Inv L s) (ha : Answers L P s) {e : Event} (hnet : e.Network)
    (hstep : step L P t s e = .ok s') (hfew : s'.Few) : Answers L P s' := by
  have hf := step_networkFrame hi hnet hstep
  have hi' := step_inv hi hstep
  intro p bev' hlive hbev'
  rw [hf.handled]
  by_cases hp : p < s.bufferevents.next
  · obtain ⟨bev, hbev⟩ := hi.base.objects.bufferevent hp
    obtain ⟨bev₁, hbev₁, -, hout⟩ := hf.kept p bev hbev
    obtain rfl : bev₁ = bev' := Option.some.inj (hbev₁.symm.trans hbev')
    rw [hout]
    exact ha p bev (live_of_step hi hstep hfew hp hlive) hbev
  · have hnone : s.bufferevents.get? p = none := by
      by_contra hne
      obtain ⟨bev, hbev⟩ := Option.ne_none_iff_exists'.mp hne
      exact hp (Heap.lt_next_of_get? hbev)
    have hn : s'.bufferevents.next < 2 ^ 64 := hi'.base.objects.length_connections ▸ hfew
    have hempty : messagesOf s.handled (connIdOf p) = [] := by
      have hle := hi.handled_le (connIdOf p)
      rw [messagesOf_inserted_new hi hn (Heap.lt_next_of_get? hbev') hf.next (not_lt.mp hp)] at hle
      exact List.prefix_nil.mp hle
    rw [hf.created p bev' hbev' hnone, hempty]
    rfl

namespace Event

/-- `bufferevent_write` takes the bytes. -/
def Written : Event → Prop
  | .thread _ written => written = true
  | _ => True

instance : DecidablePred Written
  | .thread _ written => inferInstanceAs (Decidable (written = true))
  | .accept _ | .arrive _ _ | .read _ | .error _ => .isTrue trivial

end Event

theorem step_answers (hi : Inv L s) (ht : t.Registered) (ha : Answers L P s) {e : Event}
    (hwritten : e.Written) (hstep : step L P t s e = .ok s') (hfew : s'.Few) : Answers L P s' := by
  rcases e.network_or_thread with hnet | ⟨k, written, rfl⟩
  · exact ha.network hi hnet hstep hfew
  · obtain rfl : written = true := hwritten
    have hfew₀ : s.Few := by
      rwa [Few, (step_threadFrame hstep).connections] at hfew
    exact ha.threadStep hi ht hfew₀ hstep

/-- **Every message that was handled is answered**, as long as its connection is alive. -/
theorem run_answers {events : List Event} (hrun : run L P events = .ok s)
    (hwritten : ∀ e ∈ events, e.Written) (hfew : s.Few) : Answers L P s := by
  obtain ⟨t, ht, hfold⟩ := Run.of_bind hrun
  obtain ⟨t', ht', hreg⟩ := MsgHandler.registered_started
  obtain rfl := Except.ok.inj (ht.symm.trans ht')
  refine (Run.induction (fun es s => Inv L s ∧ ((∀ e ∈ es, e.Written) → s.Few → Answers L P s))
    ?_ ?_ hfold).2 hwritten hfew
  · exact ⟨inv_initial L, fun _ _ p bev _ hp => by simp [initial] at hp⟩
  · intro es s e s' h hstep
    obtain ⟨hi, ha⟩ := h
    refine ⟨step_inv hi hstep, ?_⟩
    intro hwritten hfew
    have hfew₀ : s.Few := lt_of_le_of_lt (step_connections hi hstep).1.length_le hfew
    have ha₀ := ha (fun e' he' => hwritten e' (List.mem_append_left _ he')) hfew₀
    exact step_answers hi hreg ha₀ (hwritten e (by simp)) hstep hfew

/-! ## The threads do not end -/

/-- No worker's thread has ended. -/
def Working (s : NetWorkSystem) : Prop := ∀ k, (s.m_pNetWorkers k).pc ≠ .exited

theorem Working.update (h : s.Working) {k : Fin 2} {worker : NetWorker} (hpc : worker.pc ≠ .exited)
    (hs : s'.m_pNetWorkers = Function.update s.m_pNetWorkers k worker) : s'.Working := by
  intro k'
  rw [hs]
  by_cases hk : k' = k
  · rw [hk, Function.update_self]
    exact hpc
  · rw [Function.update_of_ne hk]
    exact h k'

theorem Working.erase (hb : Base L s) (h : s.Working) {b : ℕ} {bev : Bufferevent}
    (hget : s.bufferevents.get? b = some bev) (hrun : s.eraseConnection b = .ok s') :
    s'.Working := by
  rcases eraseConnection_eq hb.objects hb.connected hget with ⟨-, heq⟩ | ⟨p, -, -, -, heq⟩
  · obtain rfl := Except.ok.inj (heq.symm.trans hrun)
    exact h
  · obtain rfl := Except.ok.inj (heq.symm.trans hrun)
    exact h

theorem Working.push (h : s.Working) {p : ℕ} {tcpHandler : TcpHandler}
    (hrun : s.pushToWorker p tcpHandler = .ok s') : s'.Working := by
  obtain ⟨worker, h', hpush, rfl⟩ := pushToWorker_inv hrun
  obtain ⟨-, -, -, hw⟩ := NetWorker.pushNodeInStream_inv keeps_message hpush
  refine h.update ?_ rfl
  rw [hw]
  exact h _

theorem Working.read (hi : Inv L s) (h : s.Working) {b : ℕ} {bev : Bufferevent}
    (hget : s.bufferevents.get? b = some bev) (hrun : s.dealReadEvent L b = .ok s') :
    s'.Working := by
  rcases dealReadEvent_eq (L := L) hi.base.objects hi.base.connected hget with ⟨-, heq⟩ |
    ⟨p, tcpHandler, own, -, hh, hown, hfd, heq⟩
  · obtain rfl := Except.ok.inj (heq.symm.trans hrun)
    exact h
  rw [heq] at hrun
  obtain ⟨r, hread, hend⟩ := Run.of_bind hrun
  obtain ⟨hb₁, -, -⟩ := hi.afterRead hh hown hread
  have h₁ : (s.afterRead p own r).Working := h
  split at hend
  · obtain ⟨bev₁, hget₁, -⟩ := afterRead_fd hown hfd hget r
    exact h₁.erase hb₁ hget₁ hend
  · exact h₁.push hend

/-- What a step of a worker does to the queues. -/
theorem threadStep_queues {k : Fin 2} {written : Bool}
    (hrun : s.threadStep L P t k written = .ok s') :
    ∃ worker out, (s.m_pNetWorkers k).threadStep mallocOk = .ok (worker, out) ∧
      s'.m_pNetWorkers = Function.update s.m_pNetWorkers k worker ∧ s'.inserted = s.inserted := by
  obtain ⟨worker, out, hthread, rfl | ⟨msgNode, -, hhandle⟩⟩ := threadStep_inv hrun
  · exact ⟨worker, out, hthread, rfl, rfl⟩
  · rcases handleTestMsg_inv hhandle with rfl | ⟨_, _, _, _, _, -, -, -, -, -, rfl⟩
    · exact ⟨worker, out, hthread, rfl, rfl⟩
    · exact ⟨worker, out, hthread, rfl, rfl⟩

theorem Working.step (hi : Inv L s) (h : s.Working) {e : Event}
    (hstep : step L P t s e = .ok s') : s'.Working := by
  cases step_effect hi.base.objects hstep with
  | idle => exact h
  | accept hopen hfd =>
    rw [listener_read_cb, if_neg hfd]
    exact h
  | arrive hb => exact h
  | read hb hrun => exact h.read hi hb hrun
  | error hb hrun => exact h.erase hi.base hb hrun
  | @thread k written s' hrun =>
    obtain ⟨worker, out, hthread, hworkers, -⟩ := threadStep_queues hrun
    exact h.update ((hi.base.workers k).step_pc (h k) hthread) hworkers

theorem run_working {events : List Event} (hrun : run L P events = .ok s) : s.Working := by
  obtain ⟨t, -, hfold⟩ := Run.of_bind hrun
  refine (Run.induction (fun _ s => Inv L s ∧ s.Working) ?_ ?_ hfold).2
  · exact ⟨inv_initial L, fun k h => by cases h⟩
  · intro es s e s' h hstep
    exact ⟨step_inv h.1 hstep, h.2.step h.1 hstep⟩

/-- What has arrived is the same after steps of the workers. -/
theorem Announces.threadFrame {good : UInt32 × ℕ → Prop} (h : s.Announces L good)
    (ho : Objects s) (hf : ThreadFrame s s') : s'.Announces L good := by
  intro b bev' hb' x hx
  have hlt : b < s.bufferevents.next := by
    rw [← hf.next]
    exact Heap.lt_next_of_get? hb'
  obtain ⟨bev, hb⟩ := ho.bufferevent hlt
  obtain ⟨bev₁, hb₁, harr⟩ := hf.kept b bev hb
  obtain rfl : bev₁ = bev' := Option.some.inj (hb₁.symm.trans hb')
  exact h b bev hb x (harr ▸ hx)

/-! ## The queues are emptied -/

/-- How many steps worker `k` needs for what is in its queues. -/
def stepsLeft (s : NetWorkSystem) (k : Fin 2) : ℕ := (s.m_pNetWorkers k).stepsLeft

/-- Steps of the workers, in this order. -/
def threads (ks : List (Fin 2)) : List Event := ks.map fun k => .thread k true

/-- What lets the workers get through their queues: they run, all messages are of the registered id,
and there are not too many. -/
structure Drains (L : IntLayout) (s : NetWorkSystem) : Prop where
  inv : Inv L s
  working : s.Working
  test : s.Announces L fun x => x.1 = TESTMSGSID
  count : ∀ k, (s.inserted k).length < 2 ^ 32

theorem Drains.waiting_lt (h : Drains L s) (k : Fin 2) :
    (s.m_pNetWorkers k).m_msgInStream.m_listConMsg.length < 2 ^ 32 := by
  have hcount := h.count k
  have hlen := congrArg List.length (h.inv.base.queued k)
  simp only [List.length_append, List.length_map] at hlen
  omega

theorem Drains.threadStep (h : Drains L s) {k : Fin 2} {written : Bool}
    (hrun : s.threadStep L P t k written = .ok s') : Drains L s' := by
  obtain ⟨worker, out, hthread, hworkers, hinserted⟩ := threadStep_queues hrun
  refine ⟨h.inv.threadStep hrun, ?_, ?_, ?_⟩
  · exact h.working.update ((h.inv.base.workers k).step_pc (h.working k) hthread) hworkers
  · exact h.test.threadFrame h.inv.base.objects (step_threadFrame hrun)
  · rw [hinserted]
    exact h.count

/-- **A step of one worker** brings its queues nearer to the end, and does not touch the other's. -/
theorem Drains.stepsLeft_step (h : Drains L s) {k : Fin 2} {written : Bool}
    (hrun : s.threadStep L P t k written = .ok s') (k' : Fin 2) :
    s'.stepsLeft k' ≤ s.stepsLeft k' - if k' = k then 1 else 0 := by
  obtain ⟨worker, out, hthread, hworkers, -⟩ := threadStep_queues hrun
  rw [stepsLeft, hworkers]
  by_cases hk : k' = k
  · subst hk
    rw [Function.update_self, if_pos rfl]
    exact (h.inv.base.workers k').stepsLeft_step (h.waiting_lt k') hthread
  · rw [Function.update_of_ne hk, if_neg hk]
    exact le_rfl

theorem ThreadFrame.trans {s₁ : NetWorkSystem} (h : ThreadFrame s s₁) (h₁ : ThreadFrame s₁ s') :
    ThreadFrame s s' where
  tcpHandlers := h₁.tcpHandlers.trans h.tcpHandlers
  connections := h₁.connections.trans h.connections
  conMap := h₁.conMap.trans h.conMap
  next := h₁.next.trans h.next
  kept b bev hb := by
    obtain ⟨bev₁, hb₁, harr₁⟩ := h.kept b bev hb
    obtain ⟨bev', hb', harr'⟩ := h₁.kept b bev₁ hb₁
    exact ⟨bev', hb', harr'.trans harr₁⟩

/-- **Every schedule with enough steps of each worker** empties the queues. -/
theorem Drains.run (ht : t.Registered) {ks : List (Fin 2)} (h : Drains L s)
    (hsteps : ∀ k, s.stepsLeft k ≤ ks.count k) :
    ∃ s', (threads ks).foldlM (step L P t) s = .ok s' ∧ Drains L s' ∧ ThreadFrame s s' ∧
      s'.inserted = s.inserted ∧ ∀ k, s'.stepsLeft k = 0 := by
  induction ks generalizing s with
  | nil =>
    have hframe : ThreadFrame s s :=
      ⟨rfl, rfl, rfl, rfl, fun b bev hb => ⟨bev, hb, rfl⟩⟩
    exact ⟨s, rfl, h, hframe, rfl, fun k => Nat.le_zero.mp (hsteps k)⟩
  | cons k ks ih =>
    obtain ⟨s₁, hs₁⟩ := threadStep_ok (P := P) ht h.inv h.test k true
    have hsteps₁ : ∀ k', s₁.stepsLeft k' ≤ ks.count k' := by
      intro k'
      have hle := h.stepsLeft_step hs₁ k'
      have hcount := hsteps k'
      rw [List.count_cons] at hcount
      by_cases hk : k' = k
      · rw [if_pos (beq_iff_eq.mpr hk.symm)] at hcount
        rw [if_pos hk] at hle
        omega
      · rw [if_neg (fun hb => hk (beq_iff_eq.mp hb).symm)] at hcount
        rw [if_neg hk] at hle
        omega
    obtain ⟨s', hs', hdrains, hframe, hinserted, hzero⟩ := ih (h.threadStep hs₁) hsteps₁
    obtain ⟨-, -, -, -, hinserted₁⟩ := threadStep_queues hs₁
    refine ⟨s', ?_, hdrains, (step_threadFrame hs₁).trans hframe, hinserted.trans hinserted₁, hzero⟩
    rw [threads, List.map_cons, List.foldlM_cons]
    have hstep : step L P t s (.thread k true) = .ok s₁ := hs₁
    rw [hstep]
    exact hs'

/-- With nothing left in the queues everything was handled. -/
theorem Drains.handled (h : Drains L s) (hzero : ∀ k, s.stepsLeft k = 0) (k : Fin 2) :
    (s.handled k).map ConMsgNode.message = (s.inserted k).map ConMsgNode.message := by
  obtain ⟨hbatch, hstream⟩ := (NetWorker.stepsLeft_eq_zero_iff (h.working k)).mp (hzero k)
  have hqueued := h.inv.base.queued k
  rw [hbatch, hstream, List.map_nil, List.append_nil, List.append_nil] at hqueued
  exact hqueued

/-! ## What is read is inserted -/

/-- A handler whose list has fewer than `2 ^ 32` nodes is emptied by a push. -/
theorem push_inserted (hi : Inv L s) {p : ℕ} {h : TcpHandler} (hh : s.tcpHandlers.get? p = some h)
    {seen inputBuf : List UInt8} (hf : Follows L (.new (connIdOf p) (some p)) seen
      (messagesOf s.inserted (connIdOf p)) h inputBuf)
    (hlt : (decode L seen).1.length + 1 < 2 ^ 32) (hrun : s.pushToWorker p h = .ok s') :
    messagesOf s'.inserted (connIdOf p) = (decode L seen).1 := by
  obtain ⟨worker, h', hpush, rfl⟩ := pushToWorker_inv hrun
  rw [show h.m_nConnId = connIdOf p from (hi.base.connected p h hh).1] at hpush ⊢
  obtain ⟨ms, hshows⟩ := hf.shows
  obtain ⟨htagged, -⟩ := hf.push hshows hpush
  have hparts : (TcpHandler.partViews (decode L seen).2).length ≤ 1 := by
    cases (decode L seen).2 <;> simp [TcpHandler.partViews]
  have hcount : ms.length ≤ h.pushCount := by
    have hlen : h.m_listMsgs.values.length = ms.length +
        (TcpHandler.partViews (decode L seen).2).length := by
      rw [← List.length_map (f := MsgNode.view), ← TcpHandler.views, hshows.views,
        List.length_append, List.length_map]
    have hframes := congrArg List.length hshows.frames
    rw [List.length_append] at hframes
    rw [TcpHandler.pushCount, UInt32.toNat_ofNat_of_lt' (show _ < 2 ^ 32 by omega)]
    omega
  rw [List.take_of_length_le hcount] at htagged
  have hnew : (worker.m_msgInStream.m_listConMsg.drop
      (s.m_pNetWorkers (shard (connIdOf p))).m_msgInStream.m_listConMsg.length).map
        ConMsgNode.message = ms.map fun m => (connIdOf p, m) := by
    rw [List.map_drop]
    exact (congrArg _ htagged).trans (List.drop_left' (List.length_map _))
  simp only [afterPush]
  rw [messagesOf_update s.inserted hnew, if_pos rfl, ← hshows.frames]

/-- **After a read event everything that has arrived is inserted**, when the connection is still
alive. -/
theorem read_inserted (hi : Inv L s) {b : ℕ} {bev : Bufferevent}
    (hget : s.bufferevents.get? b = some bev) (hlive : s.Live b) (hfew : s.Few)
    (hlt : (decode L bev.arrived).1.length + 1 < 2 ^ 32) (hrun : s.dealReadEvent L b = .ok s')
    (hlive' : s'.Live b) :
    messagesOf s'.inserted (connIdOf b) = (decode L bev.arrived).1 ∧
      ∃ bev', s'.bufferevents.get? b = some bev' ∧ bev'.arrived = bev.arrived := by
  have hfd : s.fdOf b = some bev.fd := by rw [fdOf, hget, Option.map_some]
  have hmap := (hi.base.objects.tcpMap bev.fd (some b)).mpr ⟨b, rfl, hlive, hfd⟩
  rcases dealReadEvent_eq (L := L) hi.base.objects hi.base.connected hget with ⟨hnone, -⟩ |
    ⟨p, h, own, hp, hh, hown, hownfd, heq⟩
  · rw [hmap] at hnone
    cases hnone
  obtain rfl : b = p := Option.some.inj (Option.some.inj (hmap.symm.trans hp))
  obtain rfl : own = bev := Option.some.inj (hown.symm.trans hget)
  rw [heq] at hrun
  obtain ⟨r, hread, hend⟩ := Run.of_bind hrun
  obtain ⟨hb₁, -, hself⟩ := hi.afterRead hh hown hread
  by_cases hsucc : r.success = 0
  · -- the connection would have been erased
    rw [if_pos hsucc] at hend
    obtain ⟨bev₁, hget₁, hfd₁⟩ := afterRead_fd hown hownfd hown r
    rcases eraseConnection_eq hb₁.objects hb₁.connected hget₁ with ⟨hnone, -⟩ |
      ⟨q, hq, -, -, heq₁⟩
    · rw [hfd₁] at hnone
      exact absurd (hmap.symm.trans hnone) fun h => by cases h
    · obtain rfl := Except.ok.inj (heq₁.symm.trans hend)
      rw [hfd₁] at hq
      obtain rfl : b = q := Option.some.inj (Option.some.inj (hmap.symm.trans hq))
      exact absurd rfl ((live_erased _ _ _).mp hlive').1
  · rw [if_neg hsucc] at hend
    obtain ⟨bev₀, seen, unread, inputBuf, ins, hbev₀, harr, hin, hf, hins⟩ := hi.serves b h hh
    obtain rfl : own = bev₀ := Option.some.inj (hown.symm.trans hbev₀)
    rw [hin] at hread
    have hf' := (hf.dealReadEvent hread).2 hsucc
    rw [← harr, hins hfew] at hf'
    have hh' : (s.afterRead b own r).tcpHandlers.get? b = some r.handler := by
      rw [afterRead, Heap.get?_set hh, if_pos rfl]
    refine ⟨push_inserted (hself hsucc) hh' hf' hlt hend, { own with input := r.inputBuf }, ?_, rfl⟩
    obtain ⟨worker, h', -, rfl⟩ := pushToWorker_inv hend
    simp only [afterPush, afterRead, Heap.get?_set hown, if_true]

/-! ## How many there are -/

/-- How many packets have arrived on a bufferevent. -/
def packetsOn (L : IntLayout) (s : NetWorkSystem) (p : ℕ) : ℕ :=
  ((s.bufferevents.get? p).map fun bev => (decode L bev.arrived).1.length).getD 0

/-- How many packets have arrived. -/
def packets (L : IntLayout) (s : NetWorkSystem) : ℕ :=
  ∑ p ∈ Finset.range s.bufferevents.next, s.packetsOn L p

theorem packetsOn_le {p : ℕ} (hp : p < s.bufferevents.next) : s.packetsOn L p ≤ s.packets L :=
  Finset.single_le_sum (f := s.packetsOn L) (fun _ _ => Nat.zero_le _) (Finset.mem_range.mpr hp)

/-- Messages of `n` connections are no more than those of each together. -/
theorem length_le_sum {n : ℕ} {xs : List ConMsgNode}
    (h : ∀ x ∈ xs, ∃ p, p < n ∧ x.mConnId = connIdOf p) :
    xs.length ≤ ∑ p ∈ Finset.range n, (xs.filter fun x => x.mConnId = connIdOf p).length := by
  induction xs with
  | nil => exact Nat.zero_le _
  | cons x xs ih =>
    obtain ⟨p, hp, hx⟩ := h x List.mem_cons_self
    have hrest := ih fun y hy => h y (List.mem_cons_of_mem x hy)
    have hone : 1 ≤ ∑ q ∈ Finset.range n, if x.mConnId = connIdOf q then 1 else 0 := by
      have hle := Finset.single_le_sum (f := fun q => if x.mConnId = connIdOf q then 1 else 0)
        (fun _ _ => Nat.zero_le _) (Finset.mem_range.mpr hp)
      rwa [if_pos hx] at hle
    have hcons : ∀ q, ((x :: xs).filter fun y => y.mConnId = connIdOf q).length =
        (if x.mConnId = connIdOf q then 1 else 0) +
          (xs.filter fun y => y.mConnId = connIdOf q).length := by
      intro q
      by_cases hq : x.mConnId = connIdOf q
      · simp [hq, Nat.add_comm]
      · simp [hq]
    rw [List.length_cons, Finset.sum_congr rfl fun q _ => hcons q, Finset.sum_add_distrib]
    omega

/-- No more messages are inserted than have arrived. -/
theorem length_inserted_le (hi : Inv L s) (hfew : s.Few) (k : Fin 2) :
    (s.inserted k).length ≤ s.packets L := by
  refine (length_le_sum (n := s.bufferevents.next) ?_).trans (Finset.sum_le_sum ?_)
  · intro x hx
    obtain ⟨p, bev, hp, hid, -, -⟩ := hi.base.origin k x hx
    exact ⟨p, Heap.lt_next_of_get? hp, hid⟩
  · intro p hp
    obtain ⟨bev, hbev⟩ := hi.base.objects.bufferevent (Finset.mem_range.mp hp)
    rw [packetsOn, hbev, Option.map_some, Option.getD_some]
    by_cases hk : shard (connIdOf p) = k
    · have hle := (hi.base.inserted hfew p bev hbev).length_le
      rw [messagesOf, List.length_map, ofConn, hk] at hle
      exact hle
    · have hnone : (s.inserted k).filter (fun x => x.mConnId = connIdOf p) = [] := by
        rw [List.filter_eq_nil_iff]
        intro x hx hid
        obtain ⟨_, _, -, -, hshard, -⟩ := hi.base.origin k x hx
        exact hk (of_decide_eq_true hid ▸ hshard)
      rw [hnone]
      exact Nat.zero_le _

/-! ## Runs -/

theorem drains_of_run {events : List Event} (hrun : run L P events = .ok s)
    (htest : s.Announces L fun x => x.1 = TESTMSGSID) (hfew : s.Few)
    (hpackets : s.packets L < 2 ^ 32) : Drains L s where
  inv := run_inv hrun
  working := run_working hrun
  test := htest
  count k := (length_inserted_le (run_inv hrun) hfew k).trans_lt hpackets

theorem run_append {events : List Event} (hrun : run L P events = .ok s)
    (ht : MsgHandler.started = .ok t) (more : List Event) :
    run L P (events ++ more) = more.foldlM (step L P t) s := by
  obtain ⟨t', ht', hfold⟩ := Run.of_bind hrun
  obtain rfl := Except.ok.inj (ht.symm.trans ht')
  rw [run, ht]
  change (events ++ more).foldlM (step L P t) initial = _
  rw [List.foldlM_append, hfold]
  rfl

theorem run_threads {events : List Event} (hrun : run L P events = .ok s) (h : Drains L s)
    {ks : List (Fin 2)} (hsteps : ∀ k, s.stepsLeft k ≤ ks.count k) :
    ∃ s', run L P (events ++ threads ks) = .ok s' ∧ ThreadFrame s s' ∧ s'.inserted = s.inserted ∧
      ∀ k, (s'.handled k).map ConMsgNode.message = (s.inserted k).map ConMsgNode.message := by
  obtain ⟨t, ht, hreg⟩ := MsgHandler.registered_started
  obtain ⟨s', hs', hdrains, hframe, hinserted, hzero⟩ := h.run (P := P) hreg hsteps
  refine ⟨s', (run_append hrun ht _).trans hs', hframe, hinserted, ?_⟩
  intro k
  rw [hdrains.handled hzero, hinserted]

/-- A client connects and sends a message with the letter `A`. -/
def letterA : List Event := [.accept 5, .arrive 0 [0, 0, 0, 0, 1, 0, 0, 0, 65]]

theorem messagesOf_congr {log log' : Fin 2 → List ConMsgNode}
    (h : ∀ k, (log k).map ConMsgNode.message = (log' k).map ConMsgNode.message)
    (connId : UInt64) : messagesOf log connId = messagesOf log' connId := by
  rw [messagesOf, messagesOf, ofConn, ofConn, messages_filter, messages_filter, h]

theorem written_threads {ks : List (Fin 2)} : ∀ e ∈ threads ks, e.Written := by
  intro e he
  obtain ⟨k, -, rfl⟩ := List.mem_map.mp he
  rfl

/-- The state before a read event of a connection that is alive after it. -/
theorem of_read {events : List Event} {b : ℕ} (hrun : run L P (events ++ [.read b]) = .ok s)
    (hfew : s.Few) (hlive : s.Live b) :
    ∃ s₀, run L P events = .ok s₀ ∧ s₀.Few ∧ s₀.Live b ∧ s₀.dealReadEvent L b = .ok s := by
  obtain ⟨s₀, hs₀, t, hstep⟩ := Run.of_start_concat hrun
  have hi₀ := run_inv hs₀
  have hfew₀ : s₀.Few := lt_of_le_of_lt (step_connections hi₀ hstep).1.length_le hfew
  by_cases hb : b < s₀.bufferevents.next
  · have hlive₀ := live_of_step hi₀ hstep hfew hb hlive
    rw [step, if_pos hb] at hstep
    exact ⟨s₀, hs₀, hfew₀, hlive₀, hstep⟩
  · rw [step, if_neg hb] at hstep
    obtain rfl := Except.ok.inj hstep
    exact absurd (hlive.lt_next hi₀.base.objects) hb

/-- A run of `go` up to a read event of a connection that is alive then, and steps of the workers
that are as many as they need. -/
structure Settles (go : List Event → Exec NetWorkSystem) (L : IntLayout) (events : List Event)
    (b : ℕ) (ks : List (Fin 2)) (s : NetWorkSystem) : Prop where
  reached : go (events ++ [.read b]) = .ok s
  written : ∀ e ∈ events, e.Written
  test : s.Announces L fun x => x.1 = TESTMSGSID
  few : s.Few
  packets : s.packets L + 1 < 2 ^ 32
  live : s.Live b
  steps : ∀ k, s.stepsLeft k ≤ ks.count k

/-- What is written to a connection after a read event and every schedule that is long enough. -/
theorem Settles.answered {events : List Event} {b : ℕ} {ks : List (Fin 2)}
    (h : Settles (run L P) L events b ks s) :
    ∃ s', run L P (events ++ [.read b] ++ threads ks) = .ok s' ∧ ThreadFrame s s' ∧
      ∃ bev bev', s.bufferevents.get? b = some bev ∧ s'.bufferevents.get? b = some bev' ∧
        bev'.arrived = bev.arrived ∧ bev'.output = repliesTo L P (decode L bev.arrived).1 := by
  have hi := run_inv h.reached
  have hpackets := h.packets
  obtain ⟨s', hs', hframe, hinserted, hhandled⟩ :=
    run_threads h.reached (drains_of_run h.reached h.test h.few (by omega)) h.steps
  obtain ⟨bev, hbev⟩ := hi.base.objects.bufferevent (h.live.lt_next hi.base.objects)
  obtain ⟨bev', hbev', harr'⟩ := hframe.kept b bev hbev
  refine ⟨s', hs', hframe, bev, bev', hbev, hbev', harr', ?_⟩
  have hfew' : s'.Few := by
    rw [Few, hframe.connections]
    exact h.few
  have hlive' : s'.Live b := by
    rw [Live, hframe.tcpHandlers]
    exact h.live
  have hwritten' : ∀ e ∈ events ++ [.read b] ++ threads ks, e.Written := by
    intro e he
    rcases List.mem_append.mp he with he | he
    · rcases List.mem_append.mp he with he | he
      · exact h.written e he
      · obtain rfl := List.mem_singleton.mp he
        trivial
    · exact written_threads e he
  rw [run_answers hs' hwritten' hfew' b bev' hlive' hbev', messagesOf_congr hhandled]
  -- what has arrived was inserted by the read event
  obtain ⟨s₀, hs₀, hfew₀, hlive₀, hread⟩ := of_read h.reached h.few h.live
  have hi₀ := run_inv hs₀
  obtain ⟨bev₀, hbev₀⟩ := hi₀.base.objects.bufferevent (hlive₀.lt_next hi₀.base.objects)
  obtain ⟨bev₁, hbev₁, hle⟩ := (networkFrame_read hi₀ hbev₀ hread).kept b bev₀ hbev₀
  obtain rfl : bev₁ = bev := Option.some.inj (hbev₁.symm.trans hbev)
  have hcount : (decode L bev₀.arrived).1.length + 1 < 2 ^ 32 := by
    obtain ⟨more, harr⟩ := hle.1
    have hmono := (decode_le L bev₀.arrived more).length_le
    have hon := packetsOn_le (L := L) (Heap.lt_next_of_get? hbev)
    rw [packetsOn, hbev, Option.map_some, Option.getD_some] at hon
    rw [harr] at hmono
    omega
  obtain ⟨hins, bev₂, hbev₂, harr⟩ := read_inserted hi₀ hbev₀ hlive₀ hfew₀ hcount hread h.live
  obtain rfl : bev₂ = bev₁ := Option.some.inj (hbev₂.symm.trans hbev)
  rw [hins, harr]

/-- **Every request is answered.** After a read event of a connection that stays alive, and every
schedule in which each worker takes as many steps as it needs, the replies to all the packets that
have arrived on the connection are written, each once and in their order. -/
theorem all_answered (L : IntLayout) (P : Protobuf) (events : List Event) (b : ℕ)
    (ks : List (Fin 2)) (s : NetWorkSystem) (h : Settles (run L P) L events b ks s) :
    ∃ s' bev, run L P (events ++ [.read b] ++ threads ks) = .ok s' ∧
      s'.bufferevents.get? b = some bev ∧
        bev.output = repliesTo L P (decode L bev.arrived).1 := by
  obtain ⟨s', hs', -, bev, bev', -, hbev', harr, hout⟩ := h.answered
  exact ⟨s', bev', hs', hbev', by rw [hout, harr]⟩

theorem settles_letterA :
    ∃ s, Settles (run .little echo) .little letterA 0 [1, 1, 1, 1] s ∧
      ∀ bev, s.bufferevents.get? 0 = some bev → bev.arrived = [0, 0, 0, 0, 1, 0, 0, 0, 65] := by
  obtain ⟨s, hs, htest, hfew, hpackets, hlive, hsteps, harr⟩ :
      ∃ s, (letterA ++ [Event.read 0]).foldlM (step .little echo .firstRegistered) initial = .ok s ∧
        (∀ c ∈ s.bufferevents.cells, ∀ bev ∈ c,
          ∀ x ∈ announcedLengths .little bev.arrived, x.1 = TESTMSGSID) ∧
        s.connections.length < 2 ^ 64 ∧ s.packets .little + 1 < 2 ^ 32 ∧
        (s.tcpHandlers.get? 0).isSome = true ∧ (∀ k, s.stepsLeft k ≤ List.count k [1, 1, 1, 1]) ∧
        ∀ bev ∈ s.bufferevents.get? 0, bev.arrived = [0, 0, 0, 0, 1, 0, 0, 0, 65] :=
    ⟨_, rfl, by decide, by decide, by decide, by decide, by decide, by decide⟩
  exact ⟨s, ⟨(run_eq _ _ _).trans hs, by decide, fun b bev hb => Heap.forall_get? htest hb, hfew,
    hpackets, hlive, hsteps⟩, harr⟩

theorem all_answered_letterA :
    ∃ s' bev, run .little echo (letterA ++ [.read 0] ++ threads [1, 1, 1, 1]) = .ok s' ∧
      s'.bufferevents.get? 0 = some bev ∧
        bev.output = repliesTo .little echo (decode .little bev.arrived).1 := by
  obtain ⟨s, h, -⟩ := settles_letterA
  exact all_answered .little echo letterA 0 [1, 1, 1, 1] s h

/-! ## Two runs -/

/-- **No interference.** What a client is answered depends on the bytes that have arrived from it
and on nothing else: not on the other connections and what arrives on them, on how the bytes were
cut, on the id or the descriptor of the connection, nor on when the workers take their steps. -/
theorem replies_independent (L : IntLayout) (P : Protobuf) (events events' : List Event)
    (b b' : ℕ) (ks ks' : List (Fin 2)) (s s' : NetWorkSystem)
    (h : Settles (run L P) L events b ks s) (h' : Settles (run L P) L events' b' ks' s')
    (hsame : ∀ bev bev', s.bufferevents.get? b = some bev → s'.bufferevents.get? b' = some bev' →
      bev.arrived = bev'.arrived) :
    ∃ r r', run L P (events ++ [.read b] ++ threads ks) = .ok r ∧
      run L P (events' ++ [.read b'] ++ threads ks') = .ok r' ∧ r.outputOf b = r'.outputOf b' := by
  obtain ⟨r, hr, -, bev, out, hbev, hout, -, hreplies⟩ := h.answered
  obtain ⟨r', hr', -, bev', out', hbev', hout', -, hreplies'⟩ := h'.answered
  refine ⟨r, r', hr, hr', ?_⟩
  rw [outputOf, outputOf, hout, hout', Option.map_some, Option.map_some, hreplies, hreplies',
    hsame bev bev' hbev hbev']

/-- The same message in two pieces, from a client that connects behind another one, whose packet is
not complete. -/
def letterABehind : List Event :=
  [.accept 6, .arrive 0 [0, 0, 0, 0, 9, 0, 0, 0, 66], .read 0, .accept 5,
    .arrive 1 [0, 0, 0, 0, 1], .read 1, .arrive 1 [0, 0, 0, 65]]

theorem settles_letterABehind :
    ∃ s, Settles (run .little echo) .little letterABehind 1 [0, 0, 0, 0] s ∧
      ∀ bev, s.bufferevents.get? 1 = some bev → bev.arrived = [0, 0, 0, 0, 1, 0, 0, 0, 65] := by
  obtain ⟨s, hs, htest, hfew, hpackets, hlive, hsteps, harr⟩ :
      ∃ s, (letterABehind ++ [Event.read 1]).foldlM (step .little echo .firstRegistered) initial =
          .ok s ∧
        (∀ c ∈ s.bufferevents.cells, ∀ bev ∈ c,
          ∀ x ∈ announcedLengths .little bev.arrived, x.1 = TESTMSGSID) ∧
        s.connections.length < 2 ^ 64 ∧ s.packets .little + 1 < 2 ^ 32 ∧
        (s.tcpHandlers.get? 1).isSome = true ∧ (∀ k, s.stepsLeft k ≤ List.count k [0, 0, 0, 0]) ∧
        ∀ bev ∈ s.bufferevents.get? 1, bev.arrived = [0, 0, 0, 0, 1, 0, 0, 0, 65] :=
    ⟨_, rfl, by decide, by decide, by decide, by decide, by decide, by decide⟩
  exact ⟨s, ⟨(run_eq _ _ _).trans hs, by decide, fun b bev hb => Heap.forall_get? htest hb, hfew,
    hpackets, hlive, hsteps⟩, harr⟩

theorem replies_independent_letterA :
    ∃ r r', run .little echo (letterA ++ [.read 0] ++ threads [1, 1, 1, 1]) = .ok r ∧
      run .little echo (letterABehind ++ [.read 1] ++ threads [0, 0, 0, 0]) = .ok r' ∧
      r.outputOf 0 = r'.outputOf 1 := by
  obtain ⟨s, h, harr⟩ := settles_letterA
  obtain ⟨s', h', harr'⟩ := settles_letterABehind
  refine replies_independent .little echo letterA letterABehind 0 1 _ _ s s' h h' ?_
  intro bev bev' hbev hbev'
  rw [harr bev hbev, harr' bev' hbev']

end NetWorkSystem

end SmartServer
