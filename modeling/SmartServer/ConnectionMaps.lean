import SmartServer.Replies

/-!
# The two maps of connections agree

`m_mapTcpHandlers` and `m_mapConHandlers` are updated by separate calls, under different keys, and
`map::insert` does nothing when its key is there already. They hold the same handlers all the same
(`maps_agree`): a descriptor that is handed out belongs to no handler that is alive, and an id is
not counted twice as long as fewer than `2 ^ 64` connections are accepted.

`release`, which ends the run of the network thread, is added to the system here. It deletes the
handlers in a loop over the first map, which puts `NULL` in their places, and clears both maps
behind it.
-/

namespace SmartServer

namespace NetWorkSystem

variable {L : IntLayout} {P : Protobuf} {t : MsgHandler} {s s' : NetWorkSystem}

/-! ## Releasing -/

/-- A turn of the loop of `release`. -/
def releaseHandler (s : NetWorkSystem) : ℤ × Option ℕ → Exec NetWorkSystem
  | (_, none) => pure s
  | (fd, some p) => do
    let (p, tcpHandler) ← deref s.tcpHandlers (some p)
    let s ← s.deleteTcpHandler p tcpHandler
    pure { s with m_mapTcpHandlers := s.m_mapTcpHandlers.insert fd none }

/-- `release`, as far as the connections go. It closes the listener only. -/
def release (s : NetWorkSystem) : Exec NetWorkSystem := do
  let s ← s.m_mapTcpHandlers.toList.foldlM releaseHandler s
  pure { s with m_mapTcpHandlers := ∅, m_mapConHandlers := ∅ }

/-- The state after `release`: `tcpHandlers` are what is left of the handlers. -/
def released (s : NetWorkSystem) (tcpHandlers : Heap TcpHandler) : NetWorkSystem :=
  { s with m_mapTcpHandlers := ∅, m_mapConHandlers := ∅, tcpHandlers }

theorem releaseHandler_eq (hc : Connected s) {fd : ℤ} {p : ℕ} (hp : s.Live p) :
    s.releaseHandler (fd, some p) = .ok { s with
      m_mapTcpHandlers := s.m_mapTcpHandlers.insert fd none
      tcpHandlers := s.tcpHandlers.free p } := by
  obtain ⟨h, hh⟩ := Option.isSome_iff_exists.mp hp
  have hne : h.m_pBufferevent ≠ none := by
    rw [(hc p h hh).2]
    exact Option.some_ne_none p
  simp only [releaseHandler, deref_ok hh, deleteTcpHandler, if_neg hne, bind, Except.bind, pure,
    Except.pure]

/-- The loop frees the handlers of the entries it visits, and no other. -/
theorem foldlM_releaseHandler {entries : List (ℤ × Option ℕ)} (hc : Connected s)
    (hlive : ∀ x ∈ entries, ∃ p, x.2 = some p ∧ s.Live p)
    (hnodup : (entries.map Prod.snd).Nodup) :
    ∃ m_mapTcpHandlers tcpHandlers,
      entries.foldlM releaseHandler s = .ok { s with m_mapTcpHandlers, tcpHandlers } ∧
        tcpHandlers.next = s.tcpHandlers.next ∧
        ∀ p, tcpHandlers.get? p =
          if some p ∈ entries.map Prod.snd then none else s.tcpHandlers.get? p := by
  induction entries generalizing s with
  | nil => exact ⟨s.m_mapTcpHandlers, s.tcpHandlers, rfl, rfl, fun p => by simp⟩
  | cons x entries ih =>
    obtain ⟨fd, q⟩ := x
    obtain ⟨p, rfl, hp⟩ := hlive (fd, q) List.mem_cons_self
    obtain ⟨hnotin, hnodup⟩ := List.nodup_cons.mp hnodup
    set s₁ : NetWorkSystem := { s with
      m_mapTcpHandlers := s.m_mapTcpHandlers.insert fd none
      tcpHandlers := s.tcpHandlers.free p } with hs₁
    have hc₁ : Connected s₁ := fun q h hq => hc q h (Heap.of_get?_free hq).2
    have hlive₁ : ∀ x ∈ entries, ∃ p, x.2 = some p ∧ s₁.Live p := by
      intro x hx
      obtain ⟨q, hq, hl⟩ := hlive x (List.mem_cons_of_mem _ hx)
      refine ⟨q, hq, ?_⟩
      have hqp : q ≠ p := by
        rintro rfl
        exact hnotin (List.mem_map.mpr ⟨x, hx, hq⟩)
      rw [Live, hs₁, Heap.get?_free, if_neg hqp]
      exact hl
    obtain ⟨m, handlers, hrun, hnext, hget⟩ := ih hc₁ hlive₁ hnodup
    refine ⟨m, handlers, ?_, hnext.trans (Heap.next_free _ _), ?_⟩
    · rw [List.foldlM_cons, releaseHandler_eq hc hp]
      exact hrun
    · intro q
      rw [hget, hs₁, Heap.get?_free, List.map_cons]
      simp only [List.mem_cons, Option.some.injEq]
      by_cases hqp : q = p
      · rw [if_pos hqp, ite_self, if_pos (.inl hqp)]
      · rw [if_neg hqp]
        simp only [hqp, false_or]

/-- No handler is in `m_mapTcpHandlers` twice. -/
theorem Objects.nodup_tcpHandlers (ho : Objects s) :
    (s.m_mapTcpHandlers.toList.map Prod.snd).Nodup := by
  rw [List.Nodup, List.pairwise_map]
  refine Std.TreeMap.distinct_keys_toList.imp_of_mem ?_
  rintro ⟨fd, q⟩ ⟨fd', q'⟩ hmem hmem' hne
  rw [Std.TreeMap.mem_toList_iff_getElem?_eq_some, ho.tcpMap] at hmem hmem'
  obtain ⟨p, rfl, -, hf⟩ := hmem
  obtain ⟨p', rfl, -, hf'⟩ := hmem'
  intro hpp
  obtain rfl := Option.some.inj hpp
  exact hne (Std.LawfulEqCmp.compare_eq_iff_eq.mpr (Option.some.inj (hf.symm.trans hf')))

/-- **`release` deletes every handler once.** -/
theorem release_eq (ho : Objects s) (hc : Connected s) :
    ∃ tcpHandlers, s.release = .ok (s.released tcpHandlers) ∧
      tcpHandlers.next = s.tcpHandlers.next ∧ ∀ p, tcpHandlers.get? p = none := by
  have hlive : ∀ x ∈ s.m_mapTcpHandlers.toList, ∃ p, x.2 = some p ∧ s.Live p := by
    rintro ⟨fd, q⟩ hx
    obtain ⟨p, hq, hp, -⟩ :=
      (ho.tcpMap fd q).mp (Std.TreeMap.mem_toList_iff_getElem?_eq_some.mp hx)
    exact ⟨p, hq, hp⟩
  obtain ⟨m, handlers, hrun, hnext, hget⟩ := foldlM_releaseHandler hc hlive ho.nodup_tcpHandlers
  refine ⟨handlers, ?_, hnext, ?_⟩
  · rw [release, hrun]
    rfl
  · intro p
    rw [hget]
    by_cases hp : s.Live p
    · obtain ⟨fd, hf⟩ := Option.isSome_iff_exists.mp (ho.created p (hp.lt_next ho))
      have hmem : (fd, some p) ∈ s.m_mapTcpHandlers.toList :=
        Std.TreeMap.mem_toList_iff_getElem?_eq_some.mpr
          ((ho.tcpMap fd (some p)).mpr ⟨p, rfl, hp, hf⟩)
      rw [if_pos (List.mem_map_of_mem hmem)]
    · rw [Option.not_isSome_iff_eq_none.mp hp, ite_self]

theorem Objects.released (ho : Objects s) {tcpHandlers : Heap TcpHandler}
    (hnext : tcpHandlers.next = s.tcpHandlers.next) (hnone : ∀ p, tcpHandlers.get? p = none) :
    Objects (s.released tcpHandlers) where
  connections := ho.connections
  counter := ho.counter
  next := hnext.trans ho.next
  created := ho.created
  tcpMap fd q := by simp [NetWorkSystem.released, Live, hnone]
  fdsOpen p fd hp := by simp [NetWorkSystem.released, Live, hnone] at hp
  conMap connId q hq := by simp [NetWorkSystem.released] at hq
  conMap_live _ p hp := by simp [NetWorkSystem.released, Live, hnone] at hp

theorem Inv.release (hi : Inv L s) (hrun : s.release = .ok s') : Inv L s' := by
  obtain ⟨⟨ho, hc, hw, hq, horigin, hins⟩, hserves⟩ := hi
  obtain ⟨handlers, h, hnext, hnone⟩ := release_eq ho hc
  obtain rfl := Except.ok.inj (h.symm.trans hrun)
  refine ⟨⟨ho.released hnext hnone, ?_, hw, hq, horigin, hins⟩, ?_⟩
  · intro p h hh
    rw [released, hnone] at hh
    cases hh
  · intro p h hh
    rw [released, hnone] at hh
    cases hh

/-! ## The maps -/

/-- The maps hold the same handlers, each once. In neither of them is a `NULL`, or a pointer to a
handler that was deleted. -/
structure MapsAgree (s : NetWorkSystem) : Prop where
  same : ∀ q, (∃ fd : ℤ, s.m_mapTcpHandlers[fd]? = some q) ↔
    ∃ connId : UInt64, s.m_mapConHandlers[connId]? = some q
  oneFd : ∀ (fd fd' : ℤ) q, s.m_mapTcpHandlers[fd]? = some q →
    s.m_mapTcpHandlers[fd']? = some q → fd = fd'
  oneConnId : ∀ (connId connId' : UInt64) q, s.m_mapConHandlers[connId]? = some q →
    s.m_mapConHandlers[connId']? = some q → connId = connId'
  tcpHandler : ∀ (fd : ℤ) q, s.m_mapTcpHandlers[fd]? = some q →
    ∃ p h, q = some p ∧ s.tcpHandlers.get? p = some h
  conHandler : ∀ (connId : UInt64) q, s.m_mapConHandlers[connId]? = some q →
    ∃ p h, q = some p ∧ s.tcpHandlers.get? p = some h ∧ h.m_nConnId = connId ∧
      1 ≤ connId ∧ connId ≤ s.m_nConnId

theorem Objects.connId_mem (ho : Objects s) (hfew : s.Few) {p : ℕ}
    (hp : p < s.bufferevents.next) : 1 ≤ connIdOf p ∧ connIdOf p ≤ s.m_nConnId := by
  have hn : s.bufferevents.next < 2 ^ 64 := ho.length_connections ▸ hfew
  rw [ho.counter]
  constructor
  · rw [UInt64.le_iff_toNat_le, connIdOf, UInt64.toNat_ofNat_of_lt' (show _ < 2 ^ 64 by omega)]
    exact Nat.le_add_left 1 p
  · rw [UInt64.le_iff_toNat_le, connIdOf, UInt64.toNat_ofNat_of_lt' (show _ < 2 ^ 64 by omega),
      UInt64.toNat_ofNat_of_lt' hn]
    exact hp

theorem mapsAgree_of_objects (ho : Objects s) (hc : Connected s) (hfew : s.Few) :
    MapsAgree s where
  same q := by
    constructor
    · rintro ⟨fd, hq⟩
      obtain ⟨p, rfl, hp, -⟩ := (ho.tcpMap fd q).mp hq
      exact ⟨connIdOf p, ho.conMap_live hfew p hp⟩
    · rintro ⟨connId, hq⟩
      obtain ⟨p, rfl, hp, -⟩ := ho.conMap connId q hq
      obtain ⟨fd, hf⟩ := Option.isSome_iff_exists.mp (ho.created p (hp.lt_next ho))
      exact ⟨fd, (ho.tcpMap fd (some p)).mpr ⟨p, rfl, hp, hf⟩⟩
  oneFd fd fd' q hq hq' := by
    obtain ⟨p, rfl, -, hf⟩ := (ho.tcpMap fd q).mp hq
    obtain ⟨p', hpp, -, hf'⟩ := (ho.tcpMap fd' _).mp hq'
    obtain rfl := Option.some.inj hpp
    exact Option.some.inj (hf.symm.trans hf')
  oneConnId connId connId' q hq hq' := by
    obtain ⟨p, rfl, -, hid⟩ := ho.conMap connId q hq
    obtain ⟨p', hpp, -, hid'⟩ := ho.conMap connId' _ hq'
    obtain rfl := Option.some.inj hpp
    exact hid.symm.trans hid'
  tcpHandler fd q hq := by
    obtain ⟨p, hqp, hp, -⟩ := (ho.tcpMap fd q).mp hq
    obtain ⟨h, hh⟩ := Option.isSome_iff_exists.mp hp
    exact ⟨p, h, hqp, hh⟩
  conHandler connId q hq := by
    obtain ⟨p, hqp, hp, rfl⟩ := ho.conMap connId q hq
    obtain ⟨h, hh⟩ := Option.isSome_iff_exists.mp hp
    exact ⟨p, h, hqp, hh, (hc p h hh).1, ho.connId_mem hfew (hp.lt_next ho)⟩

/-- No id has been assigned twice. -/
theorem Objects.nodup_connIds (ho : Objects s) (hfew : s.Few) :
    (s.connections.map Prod.fst).Nodup := by
  have hn : s.bufferevents.next < 2 ^ 64 := ho.length_connections ▸ hfew
  rw [ho.connections, List.map_map]
  refine List.Nodup.map_on ?_ List.nodup_range
  intro p hp q hq hid
  exact connIdOf_inj hn (List.mem_range.mp hp) (List.mem_range.mp hq) hid

/-! ## Erasing -/

/-- The maps are what they were, or the two entries of one handler are gone. -/
def ErasesPair (s s' : NetWorkSystem) : Prop :=
  (s'.m_mapTcpHandlers = s.m_mapTcpHandlers ∧ s'.m_mapConHandlers = s.m_mapConHandlers) ∨
    ∃ p fd connId, s.m_mapTcpHandlers[fd]? = some (some p) ∧
      s.m_mapConHandlers[connId]? = some (some p) ∧
      s'.m_mapTcpHandlers = s.m_mapTcpHandlers.erase fd ∧
      s'.m_mapConHandlers = s.m_mapConHandlers.erase connId

theorem erasesPair_erase (ho : Objects s) (hc : Connected s) (hfew : s.Few) {b : ℕ}
    {bev : Bufferevent} (hb : s.bufferevents.get? b = some bev)
    (hrun : s.eraseConnection b = .ok s') : ErasesPair s s' := by
  rcases eraseConnection_eq ho hc hb with ⟨-, h⟩ | ⟨p, hp, hl, -, h⟩
  · obtain rfl := Except.ok.inj (h.symm.trans hrun)
    exact .inl ⟨rfl, rfl⟩
  · obtain rfl := Except.ok.inj (h.symm.trans hrun)
    exact .inr ⟨p, bev.fd, connIdOf p, hp, ho.conMap_live hfew p hl, rfl, rfl⟩

theorem erasesPair_read (hi : Inv L s) (hfew : s.Few) {b : ℕ} {bev : Bufferevent}
    (hb : s.bufferevents.get? b = some bev) (hrun : s.dealReadEvent L b = .ok s') :
    ErasesPair s s' := by
  rcases dealReadEvent_eq (L := L) hi.base.objects hi.base.connected hb with ⟨-, h⟩ |
    ⟨p, h, own, -, hh, hown, hfd, heq⟩
  · obtain rfl := Except.ok.inj (h.symm.trans hrun)
    exact .inl ⟨rfl, rfl⟩
  rw [heq] at hrun
  obtain ⟨r, hread, hend⟩ := Run.of_bind hrun
  obtain ⟨hb₁, -, -⟩ := hi.afterRead hh hown hread
  by_cases hsucc : r.success = 0
  · rw [if_pos hsucc] at hend
    obtain ⟨bev₁, hget₁, -⟩ := afterRead_fd hown hfd hb r
    have hpair : ErasesPair (s.afterRead p own r) s' :=
      erasesPair_erase hb₁.objects hb₁.connected hfew hget₁ hend
    exact hpair
  · rw [if_neg hsucc] at hend
    obtain ⟨worker, h', -, rfl⟩ := pushToWorker_inv hend
    exact .inl ⟨rfl, rfl⟩

theorem step_erasesPair (hi : Inv L s) (hfew : s.Few) {e : Event} (he : ∀ fd, e ≠ .accept fd)
    (hstep : step L P t s e = .ok s') : ErasesPair s s' := by
  cases step_effect hi.base.objects hstep with
  | idle => exact .inl ⟨rfl, rfl⟩
  | accept => exact absurd rfl (he _)
  | arrive => exact .inl ⟨rfl, rfl⟩
  | read hb hrun => exact erasesPair_read hi hfew hb hrun
  | error hb hrun => exact erasesPair_erase hi.base.objects hi.base.connected hfew hb hrun
  | thread hrun =>
    obtain ⟨worker, out, -, rfl | ⟨msgNode, -, hhandle⟩⟩ := threadStep_inv hrun
    · exact .inl ⟨rfl, rfl⟩
    · rcases handleTestMsg_inv hhandle with rfl | ⟨p, h, b, bev, reply, -, -, -, -, -, rfl⟩
      · exact .inl ⟨rfl, rfl⟩
      · exact .inl ⟨rfl, rfl⟩

theorem step_error_ok (ho : Objects s) (hc : Connected s) (b : ℕ) :
    ∃ s', step L P t s (.error b) = .ok s' := by
  rw [step]
  by_cases hlt : b < s.bufferevents.next
  · rw [if_pos hlt]
    obtain ⟨bev, hb⟩ := ho.bufferevent hlt
    rcases eraseConnection_eq ho hc hb with ⟨-, h⟩ | ⟨p, -, -, -, h⟩
    · exact ⟨_, h⟩
    · exact ⟨_, h⟩
  · rw [if_neg hlt]
    exact ⟨s, rfl⟩

/-! ## Runs -/

/-- **The maps agree** in every state, and no id is assigned twice, as long as fewer than `2 ^ 64`
connections are accepted. No event but an accept changes more than the pair of one handler. Errors,
on any bufferevent, and `release` go through, and `release` leaves both maps empty. -/
theorem maps_agree (L : IntLayout) (P : Protobuf) (events : List Event) (s : NetWorkSystem)
    (hrun : run L P events = .ok s) (hfew : s.Few) :
    MapsAgree s ∧ (s.connections.map Prod.fst).Nodup ∧
      (∀ (e : Event) s', (∀ fd, e ≠ .accept fd) → run L P (events ++ [e]) = .ok s' →
        ErasesPair s s') ∧
      (∀ b, ∃ s', run L P (events ++ [.error b]) = .ok s') ∧
      ∃ s', s.release = .ok s' ∧ MapsAgree s' ∧ s'.m_mapTcpHandlers = ∅ ∧
        s'.m_mapConHandlers = ∅ := by
  have hi := run_inv hrun
  have ho := hi.base.objects
  have hc := hi.base.connected
  obtain ⟨t, ht, -⟩ := Run.of_bind hrun
  refine ⟨mapsAgree_of_objects ho hc hfew, ho.nodup_connIds hfew, ?_, ?_, ?_⟩
  · intro e s' he hrun'
    rw [run_concat hrun ht] at hrun'
    exact step_erasesPair hi hfew he hrun'
  · intro b
    rw [run_concat hrun ht]
    exact step_error_ok ho hc b
  · obtain ⟨handlers, h, -, -⟩ := release_eq ho hc
    have hi' := hi.release h
    exact ⟨_, h, mapsAgree_of_objects hi'.base.objects hi'.base.connected hfew, rfl, rfl⟩

/-- Two connections, the first one erased, its descriptor handed out again, and a late error of its
bufferevent. -/
def lateError : List Event := [.accept 5, .accept 6, .error 0, .accept 5, .error 0]

theorem maps_agree_lateError :
    ∃ s, run .little echo lateError = .ok s ∧ MapsAgree s ∧
      s.m_mapTcpHandlers[(6 : ℤ)]? = some (some 1) ∧
      s.m_mapConHandlers[(2 : UInt64)]? = some (some 1) ∧
      (∀ b, ∃ s', run .little echo (lateError ++ [.error b]) = .ok s') ∧
      ∃ s', s.release = .ok s' ∧ s'.m_mapTcpHandlers = ∅ ∧ s'.m_mapConHandlers = ∅ := by
  obtain ⟨s, hs, hfew, htcp, hcon⟩ :
      ∃ s, lateError.foldlM (step .little echo .firstRegistered) initial = .ok s ∧
        s.connections.length < 2 ^ 64 ∧ s.m_mapTcpHandlers[(6 : ℤ)]? = some (some 1) ∧
        s.m_mapConHandlers[(2 : UInt64)]? = some (some 1) :=
    ⟨_, rfl, by decide, by decide, by decide⟩
  have hrun : run .little echo lateError = .ok s := (run_eq _ _ _).trans hs
  obtain ⟨hagree, -, -, herror, s', hrelease, -, htcp', hcon'⟩ :=
    maps_agree .little echo lateError s hrun hfew
  exact ⟨s, hrun, hagree, htcp, hcon, herror, s', hrelease, htcp', hcon'⟩

end NetWorkSystem

end SmartServer
