import SmartServer.SystemSteps

/-!
# What the whole system keeps

**Theorem (`run_inv`).** In every state a run reaches:

* the maps and the objects fit together (`Objects`);
* every handler that is alive follows the bytes of its own bufferevent (`Serves`), and has had
  inserted what is missing from the front of its list;
* what was inserted under a connection is a prefix of the packets its bufferevent has received,
  also after the connection was erased;
* the workers run, and what a worker has handled, what is in its batch and what is in its stream
  make up what was inserted into its stream.

No assumption is made on what arrives. What depends on ids being told apart is stated for fewer
than `2 ^ 64` connections.
-/

namespace SmartServer

open TcpHandler (SameConn Follows Shows)

namespace NetWorkSystem

variable {L : IntLayout} {s s' : NetWorkSystem}

/-! ## The messages of a connection -/

/-- The entries of a log that belong to a connection; they are in the log of its worker. -/
def ofConn (log : Fin 2 → List ConMsgNode) (connId : UInt64) : List ConMsgNode :=
  (log (shard connId)).filter fun x => x.mConnId = connId

def messagesOf (log : Fin 2 → List ConMsgNode) (connId : UInt64) : List Message :=
  (ofConn log connId).map fun x => x.mMsgNode.message

/-- Of the entries of a list, the messages of one connection, read off the tagged messages. -/
theorem messages_filter (xs : List ConMsgNode) (connId : UInt64) :
    (xs.filter fun x => x.mConnId = connId).map (fun x => x.mMsgNode.message) =
      ((xs.map ConMsgNode.message).filter fun x => x.1 = connId).map Prod.snd := by
  rw [List.filter_map, List.map_map]
  rfl

/-- Messages of one connection that are appended to the log of its worker. -/
theorem messagesOf_update (log : Fin 2 → List ConMsgNode) {connId : UInt64}
    {new : List ConMsgNode} {ms : List Message}
    (hnew : new.map ConMsgNode.message = ms.map fun m => (connId, m)) (connId' : UInt64) :
    messagesOf (Function.update log (shard connId) (log (shard connId) ++ new)) connId' =
      if connId' = connId then messagesOf log connId ++ ms else messagesOf log connId' := by
  have hms : ∀ c, ((new.filter fun x => x.mConnId = c).map fun x => x.mMsgNode.message) =
      if c = connId then ms else [] := by
    intro c
    rw [messages_filter, hnew, List.filter_map, List.map_map]
    by_cases hc : c = connId
    · simp [hc, Function.comp_def]
    · simp [hc, Ne.symm hc, Function.comp_def]
  by_cases hc : connId' = connId
  · subst hc
    rw [if_pos rfl, messagesOf, ofConn, Function.update_self, List.filter_append, List.map_append,
      hms, if_pos rfl]
    rfl
  · rw [if_neg hc]
    by_cases hk : shard connId' = shard connId
    · rw [messagesOf, ofConn, hk, Function.update_self, List.filter_append, List.map_append, hms,
        if_neg hc, List.append_nil, messagesOf, ofConn, hk]
    · rw [messagesOf, ofConn, Function.update_of_ne hk]
      rfl

theorem messagesOf_le {log log' : Fin 2 → List ConMsgNode} {connId : UInt64}
    (h : (log (shard connId)).map ConMsgNode.message <+:
      (log' (shard connId)).map ConMsgNode.message) :
    messagesOf log connId <+: messagesOf log' connId := by
  rw [messagesOf, messagesOf, ofConn, ofConn, messages_filter, messages_filter]
  exact (h.filter _).map _

/-! ## The invariant -/

/-- What does not depend on how far the handlers have read. -/
structure Base (L : IntLayout) (s : NetWorkSystem) : Prop where
  objects : Objects s
  connected : Connected s
  workers : ∀ k, (s.m_pNetWorkers k).Running
  queued : ∀ k, (s.handled k).map ConMsgNode.message ++
      ((s.m_pNetWorkers k).batch.map ConMsgNode.message ++
        (s.m_pNetWorkers k).m_msgInStream.m_listConMsg.map ConMsgNode.message) =
    (s.inserted k).map ConMsgNode.message
  origin : ∀ k, ∀ x ∈ s.inserted k, ∃ p bev, s.bufferevents.get? p = some bev ∧
    x.mConnId = connIdOf p ∧ shard x.mConnId = k ∧ x.mMsgNode.message ∈ (decode L bev.arrived).1
  inserted : s.Few → ∀ p bev, s.bufferevents.get? p = some bev →
    messagesOf s.inserted (connIdOf p) <+: (decode L bev.arrived).1

/-- The handler of connection `p`, if it is alive, has read what is no longer in the buffer, and
has had inserted what is no longer in its list. -/
def Serves (L : IntLayout) (s : NetWorkSystem) (p : ℕ) : Prop :=
  ∀ h, s.tcpHandlers.get? p = some h → ∃ bev seen unread inputBuf ins,
    s.bufferevents.get? p = some bev ∧ bev.arrived = seen ++ unread ∧
      bev.input = inputBuf ++ unread ∧
      Follows L (.new (connIdOf p) (some p)) seen ins h inputBuf ∧
      (s.Few → ins = messagesOf s.inserted (connIdOf p))

structure Inv (L : IntLayout) (s : NetWorkSystem) : Prop where
  base : Base L s
  serves : ∀ p, Serves L s p

theorem Serves.congr {p : ℕ} (hs : Serves L s p)
    (hh : s'.tcpHandlers.get? p = s.tcpHandlers.get? p)
    (hb : s'.bufferevents.get? p = s.bufferevents.get? p) (hfew : s'.Few → s.Few)
    (hm : s'.Few → messagesOf s'.inserted (connIdOf p) = messagesOf s.inserted (connIdOf p)) :
    Serves L s' p := by
  intro h hget
  obtain ⟨bev, seen, unread, inputBuf, ins, hbev, harr, hin, hf, hins⟩ := hs h (hh ▸ hget)
  exact ⟨bev, seen, unread, inputBuf, ins, hb.trans hbev, harr, hin, hf, fun hs' => by
    rw [hm hs', hins (hfew hs')]⟩

theorem inv_initial (L : IntLayout) : Inv L initial where
  base :=
    { objects := objects_initial
      connected := fun p h hh => by simp [initial] at hh
      workers := fun _ => NetWorker.running_new
      queued := fun _ => rfl
      origin := fun _ x hx => by cases hx
      inserted := fun _ p bev hb => by simp [initial] at hb }
  serves p h hh := by simp [initial] at hh

/-! ## Changing one object -/

/-- A bufferevent on which more bytes have arrived. -/
theorem Base.setBufferevent (hb : Base L s) {b : ℕ} {bev : Bufferevent}
    (hget : s.bufferevents.get? b = some bev) (bev' : Bufferevent) (hfd : bev'.fd = bev.fd)
    (bytes : List UInt8) (harr : bev'.arrived = bev.arrived ++ bytes) :
    Base L { s with bufferevents := s.bufferevents.set b bev' } := by
  have hle : (decode L bev.arrived).1 <+: (decode L bev'.arrived).1 := by
    rw [harr]
    exact decode_le L _ _
  refine ⟨hb.objects.setBufferevent hget hfd, hb.connected, hb.workers, hb.queued, ?_, ?_⟩
  · intro k x hx
    obtain ⟨p, bev₀, hp, hid, hk, hmem⟩ := hb.origin k x hx
    by_cases hpb : p = b
    · subst hpb
      obtain rfl : bev = bev₀ := Option.some.inj (hget.symm.trans hp)
      exact ⟨p, bev', by rw [Heap.get?_set hget, if_pos rfl], hid, hk, hle.subset hmem⟩
    · exact ⟨p, bev₀, by rw [Heap.get?_set hget, if_neg hpb]; exact hp, hid, hk, hmem⟩
  · intro hfew p bev₀ hp
    rcases Heap.of_get?_set hget hp with ⟨rfl, rfl⟩ | ⟨-, hp⟩
    · exact (hb.inserted hfew p bev hget).trans hle
    · exact hb.inserted hfew p bev₀ hp

theorem Base.setTcpHandler (hb : Base L s) {p : ℕ} {h h' : TcpHandler}
    (hget : s.tcpHandlers.get? p = some h)
    (hsame : SameConn (.new (connIdOf p) (some p)) h') :
    Base L { s with tcpHandlers := s.tcpHandlers.set p h' } := by
  refine ⟨hb.objects.setTcpHandler hget h', ?_, hb.workers, hb.queued, hb.origin, hb.inserted⟩
  intro q h₀ hq
  rcases Heap.of_get?_set hget hq with ⟨rfl, rfl⟩ | ⟨-, hq⟩
  · exact hsame
  · exact hb.connected q h₀ hq

/-- Bytes that arrive on a bufferevent are unread; its output is nobody's business. -/
theorem Inv.setBufferevent (hi : Inv L s) {b : ℕ} {bev bev' : Bufferevent}
    (hget : s.bufferevents.get? b = some bev) (hfd : bev'.fd = bev.fd) {bytes : List UInt8}
    (harr : bev'.arrived = bev.arrived ++ bytes) (hin : bev'.input = bev.input ++ bytes) :
    Inv L { s with bufferevents := s.bufferevents.set b bev' } := by
  refine ⟨hi.base.setBufferevent hget bev' hfd bytes harr, ?_⟩
  intro p
  by_cases hpb : p = b
  · subst hpb
    intro h hh
    obtain ⟨bev₀, seen, unread, inputBuf, ins, hbev, harr₀, hin₀, hf, hins⟩ := hi.serves p h hh
    obtain rfl : bev = bev₀ := Option.some.inj (hget.symm.trans hbev)
    refine ⟨bev', seen, unread ++ bytes, inputBuf, ins, ?_, ?_, ?_, hf, hins⟩
    · rw [Heap.get?_set hget, if_pos rfl]
    · rw [harr, harr₀, List.append_assoc]
    · rw [hin, hin₀, List.append_assoc]
  · refine (hi.serves p).congr rfl ?_ id fun _ => rfl
    rw [Heap.get?_set hget, if_neg hpb]

/-! ## Accepting -/

theorem Inv.accept (hi : Inv L s) {fd : ℤ} (hopen : fd ∉ s.openFds) (hfd : fd ≠ -1) :
    Inv L (s.listener_read_cb fd) := by
  obtain ⟨⟨ho, hc, hw, hq, horigin, hins⟩, hserves⟩ := hi
  have hrest : (s.listener_read_cb fd).m_pNetWorkers = s.m_pNetWorkers ∧
      (s.listener_read_cb fd).inserted = s.inserted ∧
      (s.listener_read_cb fd).handled = s.handled ∧
      (s.listener_read_cb fd).connections.length = s.connections.length + 1 := by
    rw [listener_read_cb, if_neg hfd]
    exact ⟨rfl, rfl, rfl, List.length_append⟩
  obtain ⟨hworkers, hinserted, hhandled, hlen⟩ := hrest
  have hfew : (s.listener_read_cb fd).Few → s.Few := fun h => by
    rw [Few, hlen] at h
    exact Nat.lt_of_succ_lt h
  -- nothing has been inserted under the new id
  have hnew : (s.listener_read_cb fd).Few →
      messagesOf s.inserted (connIdOf s.bufferevents.next) = [] := by
    intro h
    rw [Few, hlen, ho.length_connections] at h
    rw [messagesOf, List.map_eq_nil_iff, ofConn, List.filter_eq_nil_iff]
    intro x hx hid
    obtain ⟨p, bev, hp, hxp, -, -⟩ := horigin _ x hx
    have hlt := Heap.lt_next_of_get? hp
    have := connIdOf_inj h (by omega) (Nat.lt_succ_self _)
      (hxp.symm.trans (of_decide_eq_true hid))
    omega
  have hbev := bufferevent_accept (s := s) hfd
  refine ⟨⟨ho.accept hopen hfd, ?_, ?_, ?_, ?_, ?_⟩, ?_⟩
  · intro p h hp
    rw [tcpHandler_accept hfd, ho.connId_next, ho.next] at hp
    by_cases hN : p = s.bufferevents.next
    · rw [if_pos hN] at hp
      obtain rfl := Option.some.inj hp
      exact hN ▸ .refl _
    · rw [if_neg hN] at hp
      exact hc p h hp
  · rw [hworkers]
    exact hw
  · rw [hworkers, hinserted, hhandled]
    exact hq
  · rw [hinserted]
    intro k x hx
    obtain ⟨p, bev, hp, hid, hk, hmem⟩ := horigin k x hx
    refine ⟨p, bev, ?_, hid, hk, hmem⟩
    rw [hbev, if_neg (Heap.lt_next_of_get? hp).ne]
    exact hp
  · intro h p bev hp
    rw [hbev] at hp
    rw [hinserted]
    by_cases hN : p = s.bufferevents.next
    · rw [hN, hnew h]
      exact List.nil_prefix
    · rw [if_neg hN] at hp
      exact hins (hfew h) p bev hp
  · intro p
    by_cases hN : p = s.bufferevents.next
    · intro h hh
      rw [tcpHandler_accept hfd, ho.connId_next, ho.next, if_pos hN] at hh
      obtain rfl := Option.some.inj hh
      refine ⟨⟨fd, [], [], []⟩, [], [], [], [], ?_, rfl, rfl, ?_, ?_⟩
      · rw [hbev, if_pos hN]
      · rw [hN]
        exact TcpHandler.follows_new L _ _
      · intro h
        rw [hinserted, hN, hnew h]
    · refine (hserves p).congr ?_ ?_ hfew fun _ => by rw [hinserted]
      · rw [tcpHandler_accept hfd, ho.next, if_neg hN]
      · rw [hbev, if_neg hN]

/-! ## Erasing -/

/-- `eraseConnection`, when all handlers serve their connections, but for the one that is going to
be erased. -/
theorem Base.erase (hb : Base L s) {b : ℕ} {bev : Bufferevent}
    (hget : s.bufferevents.get? b = some bev)
    (hserves : ∀ p, s.m_mapTcpHandlers[bev.fd]? ≠ some (some p) → Serves L s p)
    (hrun : s.eraseConnection b = .ok s') : Inv L s' := by
  rcases eraseConnection_eq hb.objects hb.connected hget with ⟨hfree, h⟩ | ⟨p, hp, -, -, h⟩
  · obtain rfl := Except.ok.inj (h.symm.trans hrun)
    refine ⟨⟨hb.objects.closed hfree, hb.connected, hb.workers, hb.queued, hb.origin,
      hb.inserted⟩, fun p => hserves p ?_⟩
    rw [hfree]
    exact fun h => by cases h
  · obtain rfl := Except.ok.inj (h.symm.trans hrun)
    refine ⟨⟨hb.objects.erased hp, ?_, hb.workers, hb.queued, hb.origin, hb.inserted⟩, ?_⟩
    · intro q h hq
      exact hb.connected q h (Heap.of_get?_free hq).2
    · intro q h hq
      obtain ⟨hqp, hq₀⟩ := Heap.of_get?_free hq
      have hne : s.m_mapTcpHandlers[bev.fd]? ≠ some (some q) := by
        rw [hp]
        exact fun h => hqp (Option.some.inj (Option.some.inj h)).symm
      exact hserves q hne h hq₀

/-! ## Reading and pushing -/

/-- What the push of connection `p` does: `worker` has got the messages `sent`, which were received
and not inserted yet, and the handler, now `h'`, has the others. -/
structure Pushed (L : IntLayout) (s : NetWorkSystem) (p : ℕ) (worker : NetWorker)
    (h' : TcpHandler) (sent : List Message) (bev : Bufferevent) : Prop where
  bufferevent : s.bufferevents.get? p = some bev
  list : worker.m_msgInStream.m_listConMsg.map ConMsgNode.message =
    (s.m_pNetWorkers (shard (connIdOf p))).m_msgInStream.m_listConMsg.map ConMsgNode.message ++
      sent.map fun m => (connIdOf p, m)
  received : ∀ m ∈ sent, m ∈ (decode L bev.arrived).1
  inserted : s.Few → messagesOf s.inserted (connIdOf p) ++ sent <+: (decode L bev.arrived).1
  serves : ∃ seen unread inputBuf ins, bev.arrived = seen ++ unread ∧
    bev.input = inputBuf ++ unread ∧
    Follows L (.new (connIdOf p) (some p)) seen (ins ++ sent) h' inputBuf ∧
    (s.Few → ins = messagesOf s.inserted (connIdOf p))

theorem Serves.push {p : ℕ} (hs : Serves L s p) {h h' : TcpHandler}
    (hh : s.tcpHandlers.get? p = some h) {worker : NetWorker}
    (hpush : (s.m_pNetWorkers (shard (connIdOf p))).pushNodeInStream mallocOk h =
      .ok (worker, h')) : ∃ sent bev, Pushed L s p worker h' sent bev := by
  obtain ⟨bev, seen, unread, inputBuf, ins, hbev, harr, hin, hf, hins⟩ := hs h hh
  obtain ⟨ms, hshows⟩ := hf.shows
  obtain ⟨htagged, hf'⟩ := hf.push hshows hpush
  have hle : (decode L seen).1 <+: (decode L bev.arrived).1 := by
    rw [harr]
    exact decode_le L _ _
  have hsent : ins ++ ms.take h.pushCount <+: (decode L seen).1 := by
    rw [hshows.frames]
    exact (List.prefix_append_right_inj ins).mpr (List.take_prefix _ _)
  refine ⟨ms.take h.pushCount, bev, hbev, htagged, ?_, ?_,
    seen, unread, inputBuf, ins, harr, hin, hf', hins⟩
  · intro m hm
    exact hle.subset (hsent.subset (List.mem_append_right _ hm))
  · intro hfew
    rw [← hins hfew]
    exact hsent.trans hle

/-- The messages of a push are appended to the log of the connection's worker. -/
theorem Base.push (hb : Base L s) {p : ℕ} {h h' : TcpHandler}
    (hh : s.tcpHandlers.get? p = some h) {worker : NetWorker} {sent : List Message}
    {bev : Bufferevent}
    (hpush : (s.m_pNetWorkers (shard (connIdOf p))).pushNodeInStream mallocOk h = .ok (worker, h'))
    (hsent : Pushed L s p worker h' sent bev) {new : List ConMsgNode}
    (hnew : new.map ConMsgNode.message = sent.map fun m => (connIdOf p, m)) :
    Base L (s.afterPush (shard (connIdOf p)) p worker h' new) := by
  set k := shard (connIdOf p) with hk
  obtain ⟨-, -, -, hwk⟩ := NetWorker.pushNodeInStream_inv keeps_message hpush
  obtain ⟨_, _, _, _, -, -, hf, -⟩ := hsent.serves
  obtain ⟨ho, hc, hw, hq, horigin, hins⟩ := hb.setTcpHandler hh hf.conn
  refine ⟨?_, hc, ?_, ?_, ?_, ?_⟩
  · exact ho.congr rfl rfl rfl rfl rfl rfl rfl (fun _ => Iff.rfl) fun _ => rfl
  · intro k'
    simp only [afterPush]
    by_cases hkk : k' = k
    · rw [hkk, Function.update_self]
      exact (hw k).push hpush
    · rw [Function.update_of_ne hkk]
      exact hw k'
  · intro k'
    simp only [afterPush]
    by_cases hkk : k' = k
    · rw [hkk, Function.update_self, Function.update_self, List.map_append, ← hq k, hsent.list,
        hnew, show worker.batch = (s.m_pNetWorkers k).batch by rw [hwk]; rfl]
      simp only [List.append_assoc, hk]
    · rw [Function.update_of_ne hkk, Function.update_of_ne hkk]
      exact hq k'
  · intro k' x hx
    simp only [afterPush] at hx
    by_cases hkk : k' = k
    · rw [hkk, Function.update_self, List.mem_append] at hx
      rcases hx with hx | hx
      · exact hkk ▸ horigin k x hx
      · have hmem : x.message ∈ sent.map fun m => (connIdOf p, m) := by
          rw [← hnew]
          exact List.mem_map_of_mem hx
        obtain ⟨m, hm, hxm⟩ := List.mem_map.mp hmem
        obtain ⟨hxid, rfl⟩ := Prod.mk.inj hxm
        exact ⟨p, bev, hsent.bufferevent, hxid.symm, by rw [← hxid, hkk], hsent.received _ hm⟩
    · rw [Function.update_of_ne hkk] at hx
      exact horigin k' x hx
  · intro hfew q bev' hq'
    simp only [afterPush]
    rw [messagesOf_update s.inserted hnew]
    by_cases hcc : connIdOf q = connIdOf p
    · have hn : s.bufferevents.next < 2 ^ 64 := hb.objects.length_connections ▸ hfew
      obtain rfl := connIdOf_inj hn (Heap.lt_next_of_get? hq')
        (Heap.lt_next_of_get? hsent.bufferevent) hcc
      obtain rfl : bev = bev' := Option.some.inj (hsent.bufferevent.symm.trans hq')
      rw [if_pos rfl]
      exact hsent.inserted hfew
    · rw [if_neg hcc]
      exact hins hfew q bev' hq'

theorem Inv.push (hi : Inv L s) {p : ℕ} {h : TcpHandler} (hh : s.tcpHandlers.get? p = some h)
    (hrun : s.pushToWorker p h = .ok s') : Inv L s' := by
  obtain ⟨hb, hserves⟩ := hi
  obtain ⟨worker, h', hpush, rfl⟩ := pushToWorker_inv hrun
  rw [show h.m_nConnId = connIdOf p from (hb.connected p h hh).1] at hpush ⊢
  obtain ⟨sent, bev, hsent⟩ := (hserves p).push hh hpush
  set new := worker.m_msgInStream.m_listConMsg.drop
    (s.m_pNetWorkers (shard (connIdOf p))).m_msgInStream.m_listConMsg.length with hdrop
  have hnew : new.map ConMsgNode.message = sent.map fun m => (connIdOf p, m) := by
    rw [hdrop, List.map_drop, hsent.list]
    exact List.drop_left' (List.length_map _)
  have hof := messagesOf_update s.inserted hnew
  refine ⟨hb.push hh hpush hsent hnew, ?_⟩
  intro q h₀ hq
  rcases Heap.of_get?_set hh hq with ⟨rfl, rfl⟩ | ⟨hqp, hq⟩
  · obtain ⟨seen, unread, inputBuf, ins, harr, hin, hf, hins⟩ := hsent.serves
    refine ⟨bev, seen, unread, inputBuf, ins ++ sent, hsent.bufferevent, harr, hin, hf, ?_⟩
    intro hfew
    simp only [afterPush]
    rw [hof, if_pos rfl, hins hfew]
  · obtain ⟨bev', seen, unread, inputBuf, ins, hbev', harr, hin, hf, hins⟩ := hserves q h₀ hq
    refine ⟨bev', seen, unread, inputBuf, ins, hbev', harr, hin, hf, ?_⟩
    intro hfew
    have hn : s.bufferevents.next < 2 ^ 64 := hb.objects.length_connections ▸ hfew
    have hne : connIdOf q ≠ connIdOf p := fun hcc => hqp (connIdOf_inj hn
      (Heap.lt_next_of_get? hbev') (Heap.lt_next_of_get? hsent.bufferevent) hcc)
    simp only [afterPush]
    rw [hof, if_neg hne, hins hfew]

/-- After the read of connection `p` the other handlers are where they were, and that one is too,
unless it has met a head it refuses. -/
theorem Inv.afterRead (hi : Inv L s) {p : ℕ} {h : TcpHandler} {own : Bufferevent} {r : ReadResult}
    (hh : s.tcpHandlers.get? p = some h) (hown : s.bufferevents.get? p = some own)
    (hread : h.dealReadEvent L mallocOk 1 own.input = .ok r) :
    Base L (s.afterRead p own r) ∧ (∀ q, q ≠ p → Serves L (s.afterRead p own r) q) ∧
      (r.success ≠ 0 → Inv L (s.afterRead p own r)) := by
  obtain ⟨bev, seen, unread, inputBuf, ins, hbev, harr, hin, hf, hins⟩ := hi.serves p h hh
  obtain rfl : own = bev := Option.some.inj (hown.symm.trans hbev)
  rw [hin] at hread
  obtain ⟨hsame, hfollows⟩ := hf.dealReadEvent hread
  have hb₁ : Base L (s.afterRead p own r) :=
    (hi.base.setTcpHandler hh hsame).setBufferevent hown { own with input := r.inputBuf } rfl []
      (List.append_nil _).symm
  have hh₁ : ∀ q, (s.afterRead p own r).tcpHandlers.get? q =
      if q = p then some r.handler else s.tcpHandlers.get? q := Heap.get?_set hh
  have hbev₁ : ∀ q, (s.afterRead p own r).bufferevents.get? q =
      if q = p then some { own with input := r.inputBuf } else s.bufferevents.get? q :=
    Heap.get?_set hown
  have hothers : ∀ q, q ≠ p → Serves L (s.afterRead p own r) q := by
    intro q hq
    refine (hi.serves q).congr ?_ ?_ id fun _ => rfl
    · rw [hh₁, if_neg hq]
    · rw [hbev₁, if_neg hq]
  refine ⟨hb₁, hothers, fun hsucc => ⟨hb₁, fun q => ?_⟩⟩
  by_cases hq : q = p
  · subst hq
    intro h₁ hget₁
    rw [hh₁, if_pos rfl] at hget₁
    obtain rfl := Option.some.inj hget₁
    refine ⟨_, seen ++ unread, [], r.inputBuf, ins, by rw [hbev₁, if_pos rfl], ?_, ?_,
      hfollows hsucc, hins⟩
    · rw [List.append_nil]
      exact harr
    · exact (List.append_nil _).symm
  · exact hothers q hq

theorem afterRead_fd {p b : ℕ} {own bev : Bufferevent}
    (hown : s.bufferevents.get? p = some own) (hfd : own.fd = bev.fd)
    (hget : s.bufferevents.get? b = some bev) (r : ReadResult) :
    ∃ bev', (s.afterRead p own r).bufferevents.get? b = some bev' ∧ bev'.fd = bev.fd := by
  rw [NetWorkSystem.afterRead, Heap.get?_set hown]
  by_cases hbp : b = p
  · exact ⟨{ own with input := r.inputBuf }, by rw [if_pos hbp], hfd⟩
  · exact ⟨bev, by rw [if_neg hbp, hget], rfl⟩

theorem Inv.read (hi : Inv L s) {b : ℕ} {bev : Bufferevent}
    (hget : s.bufferevents.get? b = some bev) (hrun : s.dealReadEvent L b = .ok s') :
    Inv L s' := by
  rcases dealReadEvent_eq (L := L) hi.base.objects hi.base.connected hget with ⟨-, h⟩ |
    ⟨p, h, own, hp, hh, hown, hfd, heq⟩
  · obtain rfl := Except.ok.inj (h.symm.trans hrun)
    exact hi
  rw [heq] at hrun
  obtain ⟨r, hread, hend⟩ := Run.of_bind hrun
  obtain ⟨hb₁, hothers, hself⟩ := hi.afterRead hh hown hread
  by_cases hsucc : r.success = 0
  · rw [if_pos hsucc] at hend
    obtain ⟨bev₁, hget₁, hfd₁⟩ := afterRead_fd hown hfd hget r
    refine hb₁.erase hget₁ (fun q hq => hothers q ?_) hend
    rintro rfl
    exact hq (by rw [hfd₁]; exact hp)
  · rw [if_neg hsucc] at hend
    refine (hself hsucc).push ?_ hend
    rw [NetWorkSystem.afterRead, Heap.get?_set hh, if_pos rfl]

/-! ## Handling -/

theorem Inv.stepped (hi : Inv L s) {k : Fin 2} {worker : NetWorker} {out : Option ConMsgNode}
    (hrun : (s.m_pNetWorkers k).threadStep mallocOk = .ok (worker, out)) :
    Inv L (s.stepped k worker out) := by
  obtain ⟨⟨ho, hc, hw, hq, horigin, hins⟩, hserves⟩ := hi
  refine ⟨⟨?_, hc, ?_, ?_, horigin, hins⟩, hserves⟩
  · exact ho.congr rfl rfl rfl rfl rfl rfl rfl (fun _ => Iff.rfl) fun _ => rfl
  · intro k'
    simp only [NetWorkSystem.stepped]
    by_cases hkk : k' = k
    · rw [hkk, Function.update_self]
      exact ((hw k).step hrun).1
    · rw [Function.update_of_ne hkk]
      exact hw k'
  · intro k'
    simp only [NetWorkSystem.stepped]
    by_cases hkk : k' = k
    · have hmoved := (NetWorker.threadStep_inv keeps_message (hw k).batchCounted hrun).moved
      rw [hkk, Function.update_self, Function.update_self, List.map_append, List.append_assoc,
        ← hq k]
      exact congrArg _ hmoved
    · rw [Function.update_of_ne hkk, Function.update_of_ne hkk]
      exact hq k'

variable {P : Protobuf} {t : MsgHandler}

theorem Inv.threadStep (hi : Inv L s) {k : Fin 2} {written : Bool}
    (hrun : s.threadStep L P t k written = .ok s') : Inv L s' := by
  obtain ⟨worker, out, hthread, rfl | ⟨msgNode, -, hhandle⟩⟩ := threadStep_inv hrun
  · exact hi.stepped hthread
  · have hi₁ := hi.stepped hthread
    rcases handleTestMsg_inv hhandle with rfl | ⟨p, h, b, bev, reply, -, -, -, hb, -, rfl⟩
    · exact hi₁
    · exact hi₁.setBufferevent hb rfl (List.append_nil _).symm (List.append_nil _).symm

/-! ## Runs -/

/-- **Every event keeps the invariant.** -/
theorem step_inv (hi : Inv L s) {e : Event} (hstep : step L P t s e = .ok s') : Inv L s' := by
  cases step_effect hi.base.objects hstep with
  | idle => exact hi
  | accept hopen hfd => exact hi.accept hopen hfd
  | arrive hb => exact hi.setBufferevent hb rfl rfl rfl
  | read hb hrun => exact hi.read hb hrun
  | error hb hrun => exact hi.base.erase hb (fun p _ => hi.serves p) hrun
  | thread hrun => exact hi.threadStep hrun

/-- **The invariant holds in every state that is reached.** -/
theorem run_inv {events : List Event} (hrun : run L P events = .ok s) : Inv L s := by
  obtain ⟨t, -, hrun⟩ := Run.of_bind hrun
  exact Run.induction (fun _ s => Inv L s) (inv_initial L)
    (fun _ _ _ _ hi hstep => step_inv hi hstep) hrun

end NetWorkSystem

end SmartServer
