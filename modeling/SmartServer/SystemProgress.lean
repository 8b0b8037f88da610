import SmartServer.SystemInvariant

/-!
# The receiving side of the whole system

**Theorem (`inserted_frames`).** In every run, however accepts, read events and errors on the
connections follow each other, what is inserted into a worker's stream under a connection is a
prefix of the packets that connection's own bufferevent has received, and nothing is inserted
under it anywhere else. As long as no announced length is `0` or negative, no event of the
network thread faults.

The first half is the invariant. For the second, `Ready` says that the cursor of every handler is
`NULL` or on an unfinished node; announced lengths carry it from event to event.
-/

namespace SmartServer

open TcpHandler (Follows Stands Read CursorPost)

namespace NetWorkSystem

variable {L : IntLayout} {P : Protobuf} {t : MsgHandler} {s s' : NetWorkSystem}

/-! ## What the events of the network thread leave alone -/

namespace Event

/-- The events of the network thread. -/
def Network : Event → Prop
  | .thread _ _ => False
  | _ => True

/-- All others are steps of a worker. -/
theorem network_or_thread (e : Event) : e.Network ∨ ∃ k written, e = .thread k written := by
  cases e with
  | thread k written => exact .inr ⟨k, written, rfl⟩
  | _ => exact .inl trivial

end Event

/-- No bufferevent goes away, what has arrived on one stays, nothing is written or handled, and
an id is registered only with a connection that is accepted. -/
structure NetworkFrame (s s' : NetWorkSystem) : Prop where
  kept : ∀ b bev, s.bufferevents.get? b = some bev → ∃ bev', s'.bufferevents.get? b = some bev' ∧
    bev.arrived <+: bev'.arrived ∧ bev'.output = bev.output
  created : ∀ b bev', s'.bufferevents.get? b = some bev' → s.bufferevents.get? b = none →
    bev'.output = []
  handled : s'.handled = s.handled
  next : s.bufferevents.next ≤ s'.bufferevents.next
  connections : s.connections <+: s'.connections
  conMap : ∀ connId, s.m_mapConHandlers[connId]? = none → s'.m_mapConHandlers[connId]? = none ∨
    ∃ b, s.bufferevents.next ≤ b ∧ (connId, b) ∈ s'.connections

theorem NetworkFrame.trans {s₁ s₂ s₃ : NetWorkSystem} (h : NetworkFrame s₁ s₂)
    (h' : NetworkFrame s₂ s₃) : NetworkFrame s₁ s₃ where
  kept b bev hb := by
    obtain ⟨bev₂, hb₂, hle₂, hout₂⟩ := h.kept b bev hb
    obtain ⟨bev₃, hb₃, hle₃, hout₃⟩ := h'.kept b bev₂ hb₂
    exact ⟨bev₃, hb₃, hle₂.trans hle₃, hout₃.trans hout₂⟩
  created b bev₃ hb₃ hnone := by
    cases hb₂ : s₂.bufferevents.get? b with
    | none => exact h'.created b bev₃ hb₃ hb₂
    | some bev₂ =>
      obtain ⟨bev₃', hb₃', -, hout⟩ := h'.kept b bev₂ hb₂
      obtain rfl : bev₃ = bev₃' := Option.some.inj (hb₃.symm.trans hb₃')
      rw [hout]
      exact h.created b bev₂ hb₂ hnone
  handled := h'.handled.trans h.handled
  next := h.next.trans h'.next
  connections := h.connections.trans h'.connections
  conMap connId hnone := by
    rcases h.conMap connId hnone with hnone₂ | ⟨b, hb, hmem⟩
    · rcases h'.conMap connId hnone₂ with hnone₃ | ⟨b, hb, hmem⟩
      · exact .inl hnone₃
      · exact .inr ⟨b, h.next.trans hb, hmem⟩
    · exact .inr ⟨b, hb, h'.connections.subset hmem⟩

theorem networkFrame_of_eq (hb : s'.bufferevents = s.bufferevents)
    (hh : s'.handled = s.handled) (hconn : s'.connections = s.connections)
    (hcon : ∀ connId : UInt64, s.m_mapConHandlers[connId]? = none →
      s'.m_mapConHandlers[connId]? = none) : NetworkFrame s s' where
  kept _ bev hget := ⟨bev, hb ▸ hget, List.prefix_rfl, rfl⟩
  created b bev' hget hnone := by
    rw [hb, hnone] at hget
    cases hget
  handled := hh
  next := by rw [hb]
  connections := by rw [hconn]
  conMap connId hnone := .inl (hcon connId hnone)

theorem networkFrame_refl (s : NetWorkSystem) : NetworkFrame s s :=
  networkFrame_of_eq rfl rfl rfl fun _ h => h

/-- One bufferevent changes, and it is not written to. -/
theorem networkFrame_set {b : ℕ} {bev : Bufferevent}
    (hget : s.bufferevents.get? b = some bev) (bev' : Bufferevent)
    (hle : bev.arrived <+: bev'.arrived) (hout : bev'.output = bev.output)
    (tcpHandlers : Heap TcpHandler) :
    NetworkFrame s { s with tcpHandlers, bufferevents := s.bufferevents.set b bev' } where
  kept q bev₀ hq := by
    rw [Heap.get?_set hget]
    by_cases hqb : q = b
    · rw [if_pos hqb]
      obtain rfl : bev = bev₀ := Option.some.inj (hget.symm.trans (hqb ▸ hq))
      exact ⟨bev', rfl, hle, hout⟩
    · rw [if_neg hqb]
      exact ⟨bev₀, hq, List.prefix_rfl, rfl⟩
  created q bev₀ hq hnone := by
    rcases Heap.of_get?_set hget hq with ⟨rfl, -⟩ | ⟨-, hq⟩
    · rw [hget] at hnone
      cases hnone
    · rw [hnone] at hq
      cases hq
  handled := rfl
  next := (Heap.next_set _ _ _).ge
  connections := List.prefix_rfl
  conMap _ hnone := .inl hnone

theorem networkFrame_erase (ho : Objects s) (hc : Connected s) {b : ℕ} {bev : Bufferevent}
    (hb : s.bufferevents.get? b = some bev) (hrun : s.eraseConnection b = .ok s') :
    NetworkFrame s s' := by
  rcases eraseConnection_eq ho hc hb with ⟨-, h⟩ | ⟨p, -, -, -, h⟩
  · obtain rfl := Except.ok.inj (h.symm.trans hrun)
    exact networkFrame_of_eq rfl rfl rfl fun _ h => h
  · obtain rfl := Except.ok.inj (h.symm.trans hrun)
    refine networkFrame_of_eq rfl rfl rfl ?_
    intro connId hnone
    rw [erased, conMap_get_erase, hnone, ite_self]

theorem networkFrame_accept (s : NetWorkSystem) {fd : ℤ} (hfd : fd ≠ -1) :
    NetworkFrame s (s.listener_read_cb fd) := by
  have hget := bufferevent_accept (s := s) hfd
  refine ⟨fun b bev hb => ⟨bev, ?_, List.prefix_rfl, rfl⟩, fun b bev' hb hnone => ?_, ?_, ?_, ?_,
    fun connId hnone => ?_⟩
  · rw [hget, if_neg (Heap.lt_next_of_get? hb).ne]
    exact hb
  · rw [hget] at hb
    by_cases hN : b = s.bufferevents.next
    · rw [if_pos hN] at hb
      obtain rfl := Option.some.inj hb
      rfl
    · rw [if_neg hN, hnone] at hb
      cases hb
  · rw [listener_read_cb, if_neg hfd]
    rfl
  · rw [listener_read_cb, if_neg hfd]
    exact (Nat.le_succ _).trans (Heap.next_alloc _ _).ge
  · rw [listener_read_cb, if_neg hfd]
    exact List.prefix_append _ _
  · rw [listener_read_cb, if_neg hfd]
    simp only [addConnection, conMap_get_insertIfNew, hnone]
    by_cases hid : s.m_nConnId + 1 = connId
    · exact .inr ⟨s.bufferevents.next, le_rfl, List.mem_append_right _ (by simp [hid])⟩
    · rw [if_neg fun h => hid h.1]
      exact .inl rfl

theorem networkFrame_read (hi : Inv L s) {b : ℕ} {bev : Bufferevent}
    (hget : s.bufferevents.get? b = some bev) (hrun : s.dealReadEvent L b = .ok s') :
    NetworkFrame s s' := by
  rcases dealReadEvent_eq (L := L) hi.base.objects hi.base.connected hget with ⟨-, h⟩ |
    ⟨p, h, own, -, hh, hown, hfd, heq⟩
  · obtain rfl := Except.ok.inj (h.symm.trans hrun)
    exact networkFrame_refl s
  rw [heq] at hrun
  obtain ⟨r, hread, hend⟩ := Run.of_bind hrun
  obtain ⟨hb₁, -, -⟩ := hi.afterRead hh hown hread
  have hframe : NetworkFrame s (s.afterRead p own r) :=
    networkFrame_set hown { own with input := r.inputBuf } List.prefix_rfl rfl _
  apply hframe.trans
  by_cases hsucc : r.success = 0
  · rw [if_pos hsucc] at hend
    obtain ⟨bev₁, hget₁, -⟩ := afterRead_fd hown hfd hget r
    exact networkFrame_erase hb₁.objects hb₁.connected hget₁ hend
  · rw [if_neg hsucc] at hend
    obtain ⟨worker, h', -, rfl⟩ := pushToWorker_inv hend
    exact networkFrame_of_eq rfl rfl rfl fun _ h => h

/-- **The frame of the network thread.** -/
theorem step_networkFrame (hi : Inv L s) {e : Event} (hnet : e.Network)
    (hstep : step L P t s e = .ok s') : NetworkFrame s s' := by
  cases step_effect hi.base.objects hstep with
  | idle => exact networkFrame_refl s
  | accept hopen hfd => exact networkFrame_accept s hfd
  | @arrive b bev bytes hb =>
    exact networkFrame_set hb
      { bev with input := bev.input ++ bytes, arrived := bev.arrived ++ bytes }
      (List.prefix_append _ _) rfl _
  | read hb hrun => exact networkFrame_read hi hb hrun
  | error hb hrun => exact networkFrame_erase hi.base.objects hi.base.connected hb hrun
  | thread => cases hnet

/-- What a step of a worker leaves alone: everything but its own queues and what is written. -/
structure ThreadFrame (s s' : NetWorkSystem) : Prop where
  tcpHandlers : s'.tcpHandlers = s.tcpHandlers
  connections : s'.connections = s.connections
  conMap : s'.m_mapConHandlers = s.m_mapConHandlers
  next : s'.bufferevents.next = s.bufferevents.next
  kept : ∀ b bev, s.bufferevents.get? b = some bev →
    ∃ bev', s'.bufferevents.get? b = some bev' ∧ bev'.arrived = bev.arrived

theorem step_threadFrame {k : Fin 2} {written : Bool}
    (hrun : s.threadStep L P t k written = .ok s') : ThreadFrame s s' := by
  obtain ⟨worker, out, -, rfl | ⟨msgNode, -, hhandle⟩⟩ := threadStep_inv hrun
  · exact ⟨rfl, rfl, rfl, rfl, fun b bev hb => ⟨bev, hb, rfl⟩⟩
  · rcases handleTestMsg_inv hhandle with rfl | ⟨p, h, b, bev, reply, -, -, -, hb, -, rfl⟩
    · exact ⟨rfl, rfl, rfl, rfl, fun b bev hb => ⟨bev, hb, rfl⟩⟩
    · refine ⟨rfl, rfl, rfl, Heap.next_set _ _ _, ?_⟩
      intro q bev₀ hq
      rw [Heap.get?_set hb]
      by_cases hqb : q = b
      · rw [if_pos hqb]
        obtain rfl : bev = bev₀ := Option.some.inj (hb.symm.trans (hqb ▸ hq))
        exact ⟨_, rfl, rfl⟩
      · rw [if_neg hqb]
        exact ⟨bev₀, hq, rfl⟩

/-- What has arrived stays, whatever happens. -/
theorem step_arrived (hi : Inv L s) {e : Event} (hstep : step L P t s e = .ok s') {b : ℕ}
    {bev : Bufferevent} (hb : s.bufferevents.get? b = some bev) :
    ∃ bev', s'.bufferevents.get? b = some bev' ∧ bev.arrived <+: bev'.arrived := by
  rcases e.network_or_thread with hnet | ⟨k, written, rfl⟩
  · obtain ⟨bev', hb', hle, -⟩ := (step_networkFrame hi hnet hstep).kept b bev hb
    exact ⟨bev', hb', hle⟩
  · obtain ⟨bev', hb', harr⟩ := (step_threadFrame hstep).kept b bev hb
    exact ⟨bev', hb', by rw [harr]⟩

/-! ## What has been read is ready to be read on -/

/-- The cursor of every handler is `NULL` or on an unfinished node. -/
def Ready (s : NetWorkSystem) : Prop := ∀ p h, s.tcpHandlers.get? p = some h → h.Receiving

/-- What has arrived announces nothing but packets that are `good`. -/
def Announces (L : IntLayout) (good : UInt32 × ℕ → Prop) (s : NetWorkSystem) : Prop :=
  ∀ b bev, s.bufferevents.get? b = some bev → ∀ x ∈ announcedLengths L bev.arrived, good x

theorem Announces.mono {good good' : UInt32 × ℕ → Prop} (h : s.Announces L good)
    (himp : ∀ x, good x → good' x) : s.Announces L good' :=
  fun b bev hb x hx => himp x (h b bev hb x hx)

theorem ready_erase (ho : Objects s) (hc : Connected s) {b : ℕ} {bev : Bufferevent}
    (hb : s.bufferevents.get? b = some bev)
    (hready : ∀ p h, s.m_mapTcpHandlers[bev.fd]? ≠ some (some p) →
      s.tcpHandlers.get? p = some h → h.Receiving) :
    ∃ s', s.eraseConnection b = .ok s' ∧ Ready s' := by
  rcases eraseConnection_eq ho hc hb with ⟨hfree, h⟩ | ⟨p, hp, -, -, h⟩
  · refine ⟨_, h, fun q h₀ hq => hready q h₀ ?_ hq⟩
    rw [hfree]
    exact fun h => by cases h
  · refine ⟨_, h, ?_⟩
    intro q h₀ hq
    obtain ⟨hqp, hq₀⟩ := Heap.of_get?_free hq
    refine hready q h₀ ?_ hq₀
    rw [hp]
    exact fun h => hqp (Option.some.inj (Option.some.inj h)).symm

/-- A push of a handler that stands leaves it ready. -/
theorem ready_push (hi : Inv L s) {p : ℕ} {h : TcpHandler} (hh : s.tcpHandlers.get? p = some h)
    (hready : Ready s) : ∃ s', s.pushToWorker p h = .ok s' ∧ Ready s' := by
  obtain ⟨bev, seen, unread, inputBuf, ins, -, -, -, hf, -⟩ := hi.serves p h hh
  obtain ⟨worker, h', hpush⟩ := hf.push_ok (hi.base.workers (shard h.m_nConnId)).lock
  obtain ⟨ms, hshows⟩ := hf.shows
  have hst' := Stands.push ⟨hf, hready p h hh⟩ hshows hpush
  refine ⟨_, pushToWorker_eq hpush, ?_⟩
  intro q h₀ hq
  rcases Heap.of_get?_set hh hq with ⟨-, rfl⟩ | ⟨-, hq⟩
  · exact hst'.receiving
  · exact hready q h₀ hq

/-- A read on a connection that has announced no length that is `0` or negative. -/
theorem ready_read (hi : Inv L s) (hready : Ready s)
    (hlen : s.Announces L fun x => 1 ≤ x.2 ∧ x.2 < 2 ^ 31) {b : ℕ} {bev : Bufferevent}
    (hget : s.bufferevents.get? b = some bev) :
    ∃ s', s.dealReadEvent L b = .ok s' ∧ Ready s' := by
  rcases dealReadEvent_eq (L := L) hi.base.objects hi.base.connected hget with ⟨-, h⟩ |
    ⟨p, h, own, hp, hh, hown, hfd, heq⟩
  · exact ⟨s, h, hready⟩
  obtain ⟨bev₀, seen, unread, inputBuf, ins, hbev₀, harr, hin, hf, hins⟩ := hi.serves p h hh
  obtain rfl : own = bev₀ := Option.some.inj (hown.symm.trans hbev₀)
  have hlen' : ∀ x ∈ announcedLengths L (seen ++ unread), 1 ≤ x.2 ∧ x.2 < 2 ^ 31 :=
    harr ▸ hlen p own hown
  obtain ⟨r, hread, hafter, hpost⟩ :=
    Stands.dealReadEvent ⟨hf, hready p h hh⟩ fun x hx => (hlen' x hx).2
  rw [← hin] at hread
  obtain ⟨hb₁, hothers, hself⟩ := hi.afterRead hh hown hread
  rw [heq, hread]
  simp only [bind, Except.bind]
  by_cases hsucc : r.success = 0
  · rw [if_pos hsucc]
    obtain ⟨bev₁, hget₁, hfd₁⟩ := afterRead_fd hown hfd hget r
    apply ready_erase hb₁.objects hb₁.connected hget₁
    intro q h₀ hne hq
    rcases Heap.of_get?_set hh hq with ⟨rfl, -⟩ | ⟨-, hq⟩
    · rw [hfd₁] at hne
      exact absurd hp hne
    · exact hready q h₀ hq
  · rw [if_neg hsucc]
    have hself₁ : (s.afterRead p own r).tcpHandlers.get? p = some r.handler := by
      rw [NetWorkSystem.afterRead, Heap.get?_set hh, if_pos rfl]
    apply ready_push (hself hsucc) hself₁
    intro q h₀ hq
    rcases Heap.of_get?_set hh hq with ⟨-, rfl⟩ | ⟨-, hq⟩
    · exact hafter.receiving hpost hsucc
        (TcpHandler.not_endsEmpty fun x hx => (hlen' x hx).1)
    · exact hready q h₀ hq

theorem Announces.of_step (hi : Inv L s) {good : UInt32 × ℕ → Prop} {e : Event}
    (hstep : step L P t s e = .ok s') (h : s'.Announces L good) : s.Announces L good := by
  intro b bev hb x hx
  obtain ⟨bev', hb', bytes, harr⟩ := step_arrived hi hstep hb
  apply h b bev' hb' x
  rw [← harr]
  exact (announcedLengths_append L _ _).subset hx

/-- **No event of the network thread faults.** -/
theorem step_network_ok (hi : Inv L s) (hready : Ready s)
    (hlen : s.Announces L fun x => 1 ≤ x.2 ∧ x.2 < 2 ^ 31) {e : Event} (hnet : e.Network) :
    ∃ s', step L P t s e = .ok s' ∧ Ready s' := by
  cases e with
  | accept fd =>
    refine ⟨_, rfl, ?_⟩
    by_cases hstutter : fd ∈ s.openFds ∨ fd = -1
    · rcases hstutter with h | h
      · rw [if_pos h]
        exact hready
      · rw [listener_read_cb, if_pos h, ite_self]
        exact hready
    · obtain ⟨hopen, hfd⟩ := not_or.mp hstutter
      rw [if_neg hopen]
      intro p h hp
      rw [tcpHandler_accept hfd] at hp
      by_cases hN : p = s.tcpHandlers.next
      · rw [if_pos hN] at hp
        obtain rfl := Option.some.inj hp
        exact TcpHandler.receiving_of_none rfl
      · rw [if_neg hN] at hp
        exact hready p h hp
  | arrive b bytes =>
    refine ⟨_, rfl, ?_⟩
    rw [NetWorkSystem.arrive]
    cases s.bufferevents.get? b with
    | none => exact hready
    | some bev => exact hready
  | read b =>
    by_cases hlt : b < s.bufferevents.next
    · obtain ⟨bev, hbev⟩ := hi.base.objects.bufferevent hlt
      obtain ⟨s', hs', hready'⟩ := ready_read hi hready hlen hbev
      exact ⟨s', by rw [step, if_pos hlt, hs'], hready'⟩
    · exact ⟨s, by rw [step, if_neg hlt], hready⟩
  | error b =>
    by_cases hlt : b < s.bufferevents.next
    · obtain ⟨bev, hbev⟩ := hi.base.objects.bufferevent hlt
      obtain ⟨s', hs', hready'⟩ := ready_erase hi.base.objects hi.base.connected hbev
        fun p h _ hp => hready p h hp
      exact ⟨s', by rw [step, if_pos hlt, hs'], hready'⟩
    · exact ⟨s, by rw [step, if_neg hlt], hready⟩
  | thread k written => cases hnet

theorem step_ready (hi : Inv L s) (hready : Ready s)
    (hlen : s.Announces L fun x => 1 ≤ x.2 ∧ x.2 < 2 ^ 31) {e : Event}
    (hstep : step L P t s e = .ok s') : Ready s' := by
  rcases e.network_or_thread with hnet | ⟨k, written, rfl⟩
  · obtain ⟨s₁, hs₁, hready₁⟩ := step_network_ok (P := P) (t := t) hi hready hlen hnet
    obtain rfl := Except.ok.inj (hs₁.symm.trans hstep)
    exact hready₁
  · intro p h hp
    rw [(step_threadFrame hstep).tcpHandlers] at hp
    exact hready p h hp

/-! ## Runs -/

theorem run_concat {events : List Event} (hrun : run L P events = .ok s) {t : MsgHandler}
    (ht : MsgHandler.started = .ok t) (e : Event) :
    run L P (events ++ [e]) = step L P t s e :=
  Run.start_concat hrun ht e

theorem run_ready {events : List Event} (hrun : run L P events = .ok s)
    (hlen : s.Announces L fun x => 1 ≤ x.2 ∧ x.2 < 2 ^ 31) : Ready s := by
  obtain ⟨t, -, hrun⟩ := Run.of_bind hrun
  refine (Run.induction (fun _ s => Inv L s ∧
    (s.Announces L (fun x => 1 ≤ x.2 ∧ x.2 < 2 ^ 31) → Ready s)) ?_ ?_ hrun).2 hlen
  · exact ⟨inv_initial L, fun _ p h hp => by simp [initial] at hp⟩
  · intro es s e s' h hstep
    obtain ⟨hi, hready⟩ := h
    refine ⟨step_inv hi hstep, ?_⟩
    intro hlen'
    have hlen := hlen'.of_step hi hstep
    exact step_ready hi (hready hlen) hlen hstep

/-- The connections are those with a bufferevent, and each has its number's id. -/
theorem Objects.mem_connections (ho : Objects s) {connId : UInt64} {b : ℕ} :
    (connId, b) ∈ s.connections ↔ b < s.bufferevents.next ∧ connId = connIdOf b := by
  rw [ho.connections, List.mem_map]
  constructor
  · rintro ⟨p, hp, heq⟩
    obtain ⟨rfl, rfl⟩ := Prod.mk.inj heq
    exact ⟨List.mem_range.mp hp, rfl⟩
  · rintro ⟨hb, rfl⟩
    exact ⟨b, List.mem_range.mpr hb, rfl⟩

/-- **No corruption, no duplication, no cross-talk.** Under every connection the messages inserted
are, at all times, a prefix of the packets its own bufferevent has received; whatever is inserted
belongs to a connection and is in the stream of its worker. And when no announced length is `0` or
negative, no event of the network thread faults. -/
theorem inserted_frames (L : IntLayout) (P : Protobuf) (events : List Event) (s : NetWorkSystem)
    (hrun : run L P events = .ok s) (hlen : s.Announces L fun x => 1 ≤ x.2 ∧ x.2 < 2 ^ 31)
    (hfew : s.Few) :
    (∀ e : Event, e.Network → ∃ s', run L P (events ++ [e]) = .ok s') ∧
      (∀ connId b, (connId, b) ∈ s.connections →
        ∃ bev, s.bufferevents.get? b = some bev ∧
          messagesOf s.inserted connId <+: (decode L bev.arrived).1) ∧
      ∀ k, ∀ x ∈ s.inserted k, k = shard x.mConnId ∧ ∃ b, (x.mConnId, b) ∈ s.connections := by
  have hi := run_inv hrun
  refine ⟨?_, ?_, ?_⟩
  · intro e hnet
    obtain ⟨t, ht, -⟩ := Run.of_bind hrun
    obtain ⟨s', hs', -⟩ :=
      step_network_ok (P := P) (t := t) hi (run_ready hrun hlen) hlen hnet
    exact ⟨s', by rw [run_concat hrun ht, hs']⟩
  · intro connId b hmem
    obtain ⟨hb, rfl⟩ := hi.base.objects.mem_connections.mp hmem
    obtain ⟨bev, hbev⟩ := hi.base.objects.bufferevent hb
    exact ⟨bev, hbev, hi.base.inserted hfew b bev hbev⟩
  · intro k x hx
    obtain ⟨p, bev, hp, hid, hk, -⟩ := hi.base.origin k x hx
    refine ⟨hk.symm, p, ?_⟩
    exact hi.base.objects.mem_connections.mpr ⟨Heap.lt_next_of_get? hp, hid⟩

/-- A message is what its string is. -/
def echo : Protobuf := ⟨List UInt8, some, id⟩

/-- Two connections; the first one fails, and its descriptor is handed out again. After that,
bytes still arrive on the first bufferevent, and a read is reported for it. -/
def reusedDescriptor : List Event :=
  [.accept 5, .accept 6, .arrive 0 [0, 0, 0, 0, 1, 0, 0, 0, 65], .read 0,
    .arrive 1 [0, 0, 0, 0, 2], .read 1, .error 0, .accept 5,
    .arrive 2 [0, 0, 0, 0, 1, 0, 0, 0, 66], .arrive 0 [0, 0], .read 0, .thread 1 true]

theorem inserted_frames_reusedDescriptor :
    ∃ s, run .little echo reusedDescriptor = .ok s ∧ (3, 2) ∈ s.connections ∧
      messagesOf s.inserted 3 = [(0, [66])] ∧ ∃ bev, s.bufferevents.get? 2 = some bev ∧
        messagesOf s.inserted 3 <+: (decode .little bev.arrived).1 := by
  obtain ⟨t, ht, -⟩ := MsgHandler.registered_started
  obtain ⟨s, hs, hlen, hfew, hmem, hins⟩ :
      ∃ s, reusedDescriptor.foldlM (step .little echo t) initial = .ok s ∧
        (∀ c ∈ s.bufferevents.cells, ∀ bev ∈ c,
          ∀ x ∈ announcedLengths .little bev.arrived, 1 ≤ x.2 ∧ x.2 < 2 ^ 31) ∧
        s.connections.length < 2 ^ 64 ∧ (3, 2) ∈ s.connections ∧
        messagesOf s.inserted 3 = [(0, [66])] :=
    ⟨_, rfl, by decide, by decide, by decide, by decide⟩
  have hrun : run .little echo reusedDescriptor = .ok s := by
    rw [run, ht]
    exact hs
  exact ⟨s, hrun, hmem, hins, (inserted_frames .little echo reusedDescriptor s hrun
    (fun b bev hb => Heap.forall_get? hlen hb) hfew).2.1 3 2 hmem⟩

end NetWorkSystem

end SmartServer
