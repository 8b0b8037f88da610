import SmartServer.ConnectionMaps

/-!
# Which connection a callback tears down

A callback is for a bufferevent, but the system looks for the handler under the descriptor of the
bufferevent, and the descriptor may belong to another connection by then: the destructor of the
handler does not free the bufferevent of an erased connection, so callbacks for it still come.

* `live_step_iff`: an event tears down the connection it finds, if it is an error, or a read that
  meets a refused head, and no other.
* `teardown_isolated`: a callback leaves all other connections as they are, as long as they have
  other descriptors and other ids. `late_error_erases` is a run in which the descriptor is the
  same.
-/

namespace SmartServer

namespace TcpHandler

variable {L : IntLayout} {h₀ h : TcpHandler}

/-- A read reports a failure exactly when its bytes complete a head that is refused. -/
theorem Follows.success_zero_iff {stream bytes inputBuf : List UInt8} {inserted : List Message}
    {r : ReadResult} (hf : Follows L h₀ stream inserted h inputBuf)
    (hrun : TcpHandler.dealReadEvent L mallocOk 1 h (inputBuf ++ bytes) = .ok r) :
    r.success = 0 ↔ (decode L (stream ++ bytes)).2 = .refused := by
  by_cases hlive : h.CursorLive
  · have hread := (hf.read hlive).next hf.accepted bytes
    rw [hrun] at hread
    obtain ⟨ms, -, ho⟩ := hread
    exact ho.refused_iff
  · obtain ⟨hnil, rfl⟩ := dealReadEvent_dangling hlive hrun
    obtain ⟨rfl, rfl⟩ := List.append_eq_nil_iff.mp hnil
    rw [List.append_nil]
    exact iff_of_false one_ne_zero hf.accepted

end TcpHandler

namespace NetWorkSystem

variable {L : IntLayout} {P : Protobuf} {t : MsgHandler} {s s' : NetWorkSystem}

instance (p : ℕ) : Decidable (s.Live p) := inferInstanceAs (Decidable (_ = true))

/-! ## What a callback finds -/

namespace Event

/-- The bufferevent libevent fires a callback for. -/
def callback : Event → Option ℕ
  | .read b => some b
  | .error b => some b
  | _ => none

end Event

/-- A callback for bufferevent `b` finds the handler at `p`. -/
def Finds (s : NetWorkSystem) (b p : ℕ) : Prop :=
  ∃ fd, s.fdOf b = some fd ∧ s.m_mapTcpHandlers[fd]? = some (some p)

theorem finds_iff (ho : Objects s) {b p : ℕ} :
    s.Finds b p ↔ s.Live p ∧ b < s.bufferevents.next ∧ s.fdOf p = s.fdOf b := by
  constructor
  · rintro ⟨fd, hb, hp⟩
    obtain ⟨p', hpp, hl, hf⟩ := (ho.tcpMap fd _).mp hp
    obtain rfl := Option.some.inj hpp
    obtain ⟨bev, hbev, -⟩ := Option.map_eq_some_iff.mp hb
    exact ⟨hl, Heap.lt_next_of_get? hbev, hf.trans hb.symm⟩
  · rintro ⟨hl, hlt, hf⟩
    obtain ⟨fd, hb⟩ := Option.isSome_iff_exists.mp (ho.created b hlt)
    exact ⟨fd, hb, (ho.tcpMap fd _).mpr ⟨p, rfl, hl, hf.trans hb⟩⟩

/-- A head that is refused has arrived for connection `p`. -/
def Refused (L : IntLayout) (s : NetWorkSystem) (p : ℕ) : Prop :=
  ∃ bev, s.bufferevents.get? p = some bev ∧ (decode L bev.arrived).2 = .refused

/-- The event ends connection `p`. -/
def TearsDown (L : IntLayout) (s : NetWorkSystem) (p : ℕ) : Event → Prop
  | .read b => s.Finds b p ∧ s.Refused L p
  | .error b => s.Finds b p
  | _ => False

theorem TearsDown.finds {p : ℕ} {e : Event} (h : s.TearsDown L p e) :
    ∃ b, e.callback = some b ∧ s.Finds b p := by
  cases e with
  | read b => exact ⟨b, rfl, h.1⟩
  | error b => exact ⟨b, rfl, h⟩
  | accept fd => cases h
  | arrive b bytes => cases h
  | thread k written => cases h

/-! ## A read, up to what is done with its result -/

theorem live_afterRead {p : ℕ} {h : TcpHandler} (hh : s.tcpHandlers.get? p = some h)
    (own : Bufferevent) (r : ReadResult) (q : ℕ) : (s.afterRead p own r).Live q ↔ s.Live q := by
  rw [Live, afterRead, Heap.get?_set hh]
  by_cases hq : q = p
  · simp [hq, Live, hh]
  · simp [hq, Live]

theorem fdOf_afterRead {p : ℕ} {own : Bufferevent} (hown : s.bufferevents.get? p = some own)
    (r : ReadResult) (q : ℕ) : (s.afterRead p own r).fdOf q = s.fdOf q := by
  rw [fdOf, afterRead, Heap.get?_set hown]
  by_cases hq : q = p
  · simp [hq, fdOf, hown]
  · simp [hq, fdOf]

theorem live_afterPush {k : Fin 2} {p : ℕ} {h : TcpHandler}
    (hh : s.tcpHandlers.get? p = some h) (worker : NetWorker) (h' : TcpHandler)
    (new : List ConMsgNode) (q : ℕ) : (s.afterPush k p worker h' new).Live q ↔ s.Live q := by
  rw [Live, afterPush, Heap.get?_set hh]
  by_cases hq : q = p
  · simp [hq, Live, hh]
  · simp [hq, Live]

/-! ## Which connection is torn down -/

/-- What a callback finds is what is under the descriptor. -/
theorem finds_of_get {b : ℕ} {bev : Bufferevent} (hb : s.bufferevents.get? b = some bev) (p : ℕ) :
    s.Finds b p ↔ s.m_mapTcpHandlers[bev.fd]? = some (some p) := by
  have hfd : s.fdOf b = some bev.fd := by rw [fdOf, hb, Option.map_some]
  simp only [Finds, hfd, Option.some.injEq, exists_eq_left']

theorem Finds.unique {b p q : ℕ} (hp : s.Finds b p) (hq : s.Finds b q) : p = q := by
  obtain ⟨fd, hb, hp⟩ := hp
  obtain ⟨fd', hb', hq⟩ := hq
  obtain rfl := Option.some.inj (hb.symm.trans hb')
  exact Option.some.inj (Option.some.inj (hp.symm.trans hq))

/-- Connection `p` is gone, with its entry. -/
structure Torn (s s' : NetWorkSystem) (p : ℕ) : Prop where
  next : s'.bufferevents.next = s.bufferevents.next
  live : ∀ q, s'.Live q ↔ s.Live q ∧ q ≠ p
  conMap : s'.m_mapConHandlers = s.m_mapConHandlers.erase (connIdOf p)

/-- No connection is gone, and none is new. -/
structure Kept (s s' : NetWorkSystem) : Prop where
  next : s'.bufferevents.next = s.bufferevents.next
  live : ∀ q, s'.Live q ↔ s.Live q
  conMap : s'.m_mapConHandlers = s.m_mapConHandlers

theorem kept_refl (s : NetWorkSystem) : Kept s s := ⟨rfl, fun _ => Iff.rfl, rfl⟩

theorem erase_cases (ho : Objects s) (hc : Connected s) {b : ℕ} {bev : Bufferevent}
    (hb : s.bufferevents.get? b = some bev) (hrun : s.eraseConnection b = .ok s') :
    (∃ p, s.Finds b p ∧ Torn s s' p) ∨ (∀ p, ¬ s.Finds b p) ∧ Kept s s' := by
  simp only [finds_of_get hb]
  rcases eraseConnection_eq ho hc hb with ⟨hfree, h⟩ | ⟨q, hq, -, -, h⟩
  · obtain rfl := Except.ok.inj (h.symm.trans hrun)
    rw [hfree]
    refine .inr ⟨?_, ⟨rfl, fun _ => Iff.rfl, rfl⟩⟩
    intro p hp
    cases hp
  · obtain rfl := Except.ok.inj (h.symm.trans hrun)
    refine .inl ⟨q, hq, rfl, fun p => ?_, rfl⟩
    rw [live_erased, and_comm]

/-- The handler reports a failure exactly when a head that is refused has arrived. -/
theorem Inv.success_zero_iff (hi : Inv L s) {p : ℕ} {h : TcpHandler} {own : Bufferevent}
    {r : ReadResult} (hh : s.tcpHandlers.get? p = some h)
    (hown : s.bufferevents.get? p = some own)
    (hread : h.dealReadEvent L mallocOk 1 own.input = .ok r) :
    r.success = 0 ↔ s.Refused L p := by
  obtain ⟨bev, seen, unread, inputBuf, ins, hbev, harr, hin, hf, -⟩ := hi.serves p h hh
  obtain rfl : own = bev := Option.some.inj (hown.symm.trans hbev)
  rw [hin] at hread
  rw [hf.success_zero_iff hread, ← harr]
  simp only [Refused, hown, Option.some.injEq, exists_eq_left']

theorem read_cases (hi : Inv L s) {b : ℕ} {bev : Bufferevent}
    (hb : s.bufferevents.get? b = some bev) (hrun : s.dealReadEvent L b = .ok s') :
    (∃ p, (s.Finds b p ∧ s.Refused L p) ∧ Torn s s' p) ∨
      (∀ p, ¬ (s.Finds b p ∧ s.Refused L p)) ∧ Kept s s' := by
  rcases dealReadEvent_eq (L := L) hi.base.objects hi.base.connected hb with ⟨hfree, h⟩ |
    ⟨q, h, own, hq, hh, hown, hfd, heq⟩
  · obtain rfl := Except.ok.inj (h.symm.trans hrun)
    refine .inr ⟨?_, kept_refl s⟩
    rintro p ⟨hp, -⟩
    rw [finds_of_get hb, hfree] at hp
    cases hp
  rw [heq] at hrun
  obtain ⟨r, hread, hend⟩ := Run.of_bind hrun
  have hrefused := hi.success_zero_iff hh hown hread
  have hfinds : s.Finds b q := (finds_of_get hb q).mpr hq
  have hlive := live_afterRead hh own r
  by_cases hsucc : r.success = 0
  · rw [if_pos hsucc] at hend
    obtain ⟨hb₁, -, -⟩ := hi.afterRead hh hown hread
    obtain ⟨bev₁, hget₁, hfd₁⟩ := afterRead_fd hown hfd hb r
    have hfinds₁ : (s.afterRead q own r).Finds b q := by
      rw [finds_of_get hget₁, hfd₁]
      exact hq
    rcases erase_cases hb₁.objects hb₁.connected hget₁ hend with
      ⟨p, hp, htorn⟩ | ⟨hnone, -⟩
    · obtain rfl := hfinds₁.unique hp
      refine .inl ⟨q, ⟨hfinds, hrefused.mp hsucc⟩, ?_, fun p => ?_, htorn.conMap⟩
      · rw [htorn.next]
        exact Heap.next_set _ _ _
      · rw [htorn.live, hlive]
    · exact absurd hfinds₁ (hnone q)
  · rw [if_neg hsucc] at hend
    obtain ⟨worker, h', -, rfl⟩ := pushToWorker_inv hend
    have hself : (s.afterRead q own r).tcpHandlers.get? q = some r.handler := by
      rw [afterRead, Heap.get?_set hh, if_pos rfl]
    refine .inr ⟨?_, ?_, fun p => ?_, rfl⟩
    · rintro p ⟨hp, href⟩
      obtain rfl := hfinds.unique hp
      exact hsucc (hrefused.mpr href)
    · exact Heap.next_set _ _ _
    · exact (live_afterPush hself _ _ _ p).trans (hlive p)

/-- An accept leaves the entries that are there. -/
theorem conMap_accept (ho : Objects s) {fd : ℤ} (hfd : fd ≠ -1) {connId : UInt64}
    {q : Option ℕ} (hq : s.m_mapConHandlers[connId]? = some q) :
    (s.listener_read_cb fd).m_mapConHandlers[connId]? = some q := by
  rw [(maps_accept ho hfd).2.1, conMap_get_insertIfNew, if_neg]
  · exact hq
  · rintro ⟨rfl, hnone⟩
    rw [hnone] at hq
    cases hq

/-- What an event does to the connections: it accepts one, tears down one, or none. -/
inductive Change (L : IntLayout) (s : NetWorkSystem) (e : Event) : NetWorkSystem → Prop
  | accepted {fd : ℤ} (he : e = .accept fd) (hopen : fd ∉ s.openFds) (hfd : fd ≠ -1) :
    Change L s e (s.listener_read_cb fd)
  | torn {s' : NetWorkSystem} {p : ℕ} (hp : s.TearsDown L p e) (h : Torn s s' p) : Change L s e s'
  | kept {s' : NetWorkSystem} (hnone : ∀ p, ¬ s.TearsDown L p e) (h : Kept s s') : Change L s e s'

theorem step_change (hi : Inv L s) {e : Event} (hstep : step L P t s e = .ok s') :
    Change L s e s' := by
  have ho := hi.base.objects
  cases e with
  | accept fd =>
    obtain rfl := Except.ok.inj hstep
    by_cases hopen : fd ∈ s.openFds
    · rw [if_pos hopen]
      exact .kept (fun p h => h) (kept_refl s)
    · rw [if_neg hopen]
      by_cases hfd : fd = -1
      · rw [listener_read_cb, if_pos hfd]
        exact .kept (fun p h => h) (kept_refl s)
      · exact .accepted rfl hopen hfd
  | arrive b bytes =>
    obtain rfl := Except.ok.inj hstep
    refine .kept (fun p h => h) ?_
    rw [NetWorkSystem.arrive]
    split
    · exact kept_refl s
    · exact ⟨Heap.next_set _ _ _, fun _ => Iff.rfl, rfl⟩
  | read b =>
    rw [step] at hstep
    by_cases hlt : b < s.bufferevents.next
    · rw [if_pos hlt] at hstep
      obtain ⟨bev, hb⟩ := ho.bufferevent hlt
      rcases read_cases hi hb hstep with ⟨p, hp, htorn⟩ | ⟨hnone, hkept⟩
      · exact .torn hp htorn
      · exact .kept hnone hkept
    · rw [if_neg hlt] at hstep
      obtain rfl := Except.ok.inj hstep
      exact .kept (fun p h => hlt ((finds_iff ho).mp h.1).2.1) (kept_refl s)
  | error b =>
    rw [step] at hstep
    by_cases hlt : b < s.bufferevents.next
    · rw [if_pos hlt] at hstep
      obtain ⟨bev, hb⟩ := ho.bufferevent hlt
      rcases erase_cases ho hi.base.connected hb hstep with ⟨p, hp, htorn⟩ | ⟨hnone, hkept⟩
      · exact .torn hp htorn
      · exact .kept hnone hkept
    · rw [if_neg hlt] at hstep
      obtain rfl := Except.ok.inj hstep
      exact .kept (fun p h => hlt ((finds_iff ho).mp h).2.1) (kept_refl s)
  | thread k written =>
    have hf := step_threadFrame hstep
    refine .kept (fun p h => h) ⟨hf.next, fun p => ?_, hf.conMap⟩
    rw [Live, hf.tcpHandlers]
    rfl

/-- **An event ends the connections it tears down, and no other.** -/
theorem live_step_iff (hi : Inv L s) {e : Event} (hstep : step L P t s e = .ok s') {p : ℕ}
    (hp : s.Live p) : s'.Live p ↔ ¬ s.TearsDown L p e := by
  cases step_change hi hstep with
  | accepted he hopen hfd =>
    subst he
    exact iff_of_true ((live_accept hi.base.objects hfd p).mpr (.inr hp)) id
  | @torn _ q hq htorn =>
    rw [htorn.live, and_iff_right hp, not_iff_not]
    constructor
    · rintro rfl
      exact hq
    · intro hpe
      obtain ⟨b, hb, hfinds⟩ := hq.finds
      obtain ⟨b', hb', hfinds'⟩ := hpe.finds
      obtain rfl := Option.some.inj (hb.symm.trans hb')
      exact hfinds'.unique hfinds
  | kept hnone hkept =>
    rw [hkept.live]
    exact iff_of_true hp (hnone p)

/-! ## Connections that are left alone -/

/-- Connection `p` has its handler, its entries and its socket, and the handler is what it was. -/
structure Intact (s s' : NetWorkSystem) (p : ℕ) : Prop where
  handler : s'.tcpHandlers.get? p = s.tcpHandlers.get? p
  tcpMap : ∀ fd : ℤ, s'.m_mapTcpHandlers[fd]? = some (some p) ↔
    s.m_mapTcpHandlers[fd]? = some (some p)
  conMap : ∀ connId : UInt64, s'.m_mapConHandlers[connId]? = some (some p) ↔
    s.m_mapConHandlers[connId]? = some (some p)
  socket : s'.fdOf p = s.fdOf p ∧ ∀ fd, s.fdOf p = some fd → fd ∈ s'.openFds

theorem Intact.trans {s₁ s₂ s₃ : NetWorkSystem} {p : ℕ} (h : Intact s₁ s₂ p)
    (h' : Intact s₂ s₃ p) : Intact s₁ s₃ p where
  handler := h'.handler.trans h.handler
  tcpMap fd := (h'.tcpMap fd).trans (h.tcpMap fd)
  conMap connId := (h'.conMap connId).trans (h.conMap connId)
  socket := ⟨h'.socket.1.trans h.socket.1, fun fd hf => h'.socket.2 fd (h.socket.1.trans hf)⟩

/-- In systems with their objects in order, that is the handler, the descriptor and the entry in
the second map. -/
theorem intact_of (ho : Objects s) (ho' : Objects s') {p : ℕ} (hp : s.Live p)
    (hget : s'.tcpHandlers.get? p = s.tcpHandlers.get? p) (hfd : s'.fdOf p = s.fdOf p)
    (hcon : ∀ connId : UInt64, s'.m_mapConHandlers[connId]? = some (some p) ↔
      s.m_mapConHandlers[connId]? = some (some p)) : Intact s s' p where
  handler := hget
  tcpMap fd := by
    have hlive : s'.Live p ↔ s.Live p := by rw [Live, hget]; rfl
    rw [ho.tcpMap, ho'.tcpMap]
    simp only [Option.some.injEq, exists_eq_left', hlive, hfd]
  conMap := hcon
  socket := by
    refine ⟨hfd, fun fd hf => ho'.fdsOpen p fd ?_ (hfd.trans hf)⟩
    rw [Live, hget]
    exact hp

/-- No other connection has the descriptor of `b`, or shares an id with connection `b`. -/
def Alone (s : NetWorkSystem) (b : ℕ) : Prop :=
  ∀ p, s.Live p → p ≠ b → s.fdOf p ≠ s.fdOf b ∧ (s.Live b → connIdOf p ≠ connIdOf b)

theorem Alone.congr {b : ℕ} (ha : s.Alone b) (hlive : ∀ p, s'.Live p ↔ s.Live p)
    (hfd : ∀ p, s'.fdOf p = s.fdOf p) : s'.Alone b := by
  intro p hp hne
  rw [hfd, hfd, hlive]
  exact ha p ((hlive p).mp hp) hne

/-- Then a callback for `b` finds no other connection. -/
theorem Alone.finds {b p : ℕ} (ha : s.Alone b) (ho : Objects s) (h : s.Finds b p) : p = b := by
  obtain ⟨hl, -, hf⟩ := (finds_iff ho).mp h
  by_contra hne
  exact (ha p hl hne).1 hf

theorem intact_erase (ho : Objects s) (hc : Connected s) {b : ℕ} {bev : Bufferevent}
    (hb : s.bufferevents.get? b = some bev) (ha : s.Alone b) (hrun : s.eraseConnection b = .ok s')
    {p : ℕ} (hp : s.Live p) (hne : p ≠ b) : Intact s s' p := by
  rcases eraseConnection_eq ho hc hb with ⟨hfree, h⟩ | ⟨q, hq, hlq, -, h⟩
  · obtain rfl := Except.ok.inj (h.symm.trans hrun)
    exact intact_of ho (ho.closed hfree) hp rfl rfl fun _ => Iff.rfl
  · obtain rfl := Except.ok.inj (h.symm.trans hrun)
    obtain rfl : q = b := ha.finds ho ((finds_of_get hb q).mpr hq)
    refine intact_of ho (ho.erased hq) hp ?_ rfl ?_
    · rw [erased, Heap.get?_free, if_neg hne]
    · intro connId
      rw [erased, conMap_get_erase]
      by_cases hid : connIdOf q = connId
      · -- the entry is not that of `p`, whose id is another one
        rw [if_pos hid]
        refine iff_of_false (fun h => by cases h) fun h => ?_
        obtain ⟨p', hpp, -, hid'⟩ := ho.conMap connId _ h
        obtain rfl := Option.some.inj hpp
        exact (ha p hp hne).2 hlq (hid'.trans hid.symm)
      · rw [if_neg hid]

theorem intact_read (hi : Inv L s) {b : ℕ} {bev : Bufferevent}
    (hb : s.bufferevents.get? b = some bev) (ha : s.Alone b) (hrun : s.dealReadEvent L b = .ok s')
    {p : ℕ} (hp : s.Live p) (hne : p ≠ b) : Intact s s' p := by
  have ho := hi.base.objects
  rcases dealReadEvent_eq (L := L) ho hi.base.connected hb with ⟨-, h⟩ |
    ⟨q, h, own, hq, hh, hown, hfd, heq⟩
  · obtain rfl := Except.ok.inj (h.symm.trans hrun)
    exact intact_of ho ho hp rfl rfl fun _ => Iff.rfl
  obtain rfl : q = b := ha.finds ho ((finds_of_get hb q).mpr hq)
  rw [heq] at hrun
  obtain ⟨r, hread, hend⟩ := Run.of_bind hrun
  obtain ⟨hb₁, -, hself⟩ := hi.afterRead hh hown hread
  have hlive := live_afterRead hh own r
  have hread₁ : Intact s (s.afterRead q own r) p := by
    refine intact_of ho hb₁.objects hp ?_ (fdOf_afterRead hown r p) fun _ => Iff.rfl
    rw [afterRead, Heap.get?_set hh, if_neg hne]
  apply hread₁.trans
  by_cases hsucc : r.success = 0
  · rw [if_pos hsucc] at hend
    obtain ⟨bev₁, hget₁, -⟩ := afterRead_fd hown hfd hb r
    exact intact_erase hb₁.objects hb₁.connected hget₁ (ha.congr hlive (fdOf_afterRead hown r))
      hend ((hlive p).mpr hp) hne
  · rw [if_neg hsucc] at hend
    have hget : (s.afterRead q own r).tcpHandlers.get? q = some r.handler := by
      rw [afterRead, Heap.get?_set hh, if_pos rfl]
    have ho' := ((hself hsucc).push hget hend).base.objects
    obtain ⟨worker, h', -, rfl⟩ := pushToWorker_inv hend
    refine intact_of hb₁.objects ho' ((hlive p).mpr hp) ?_ rfl fun _ => Iff.rfl
    rw [afterPush, Heap.get?_set hget, if_neg hne]

theorem fdOf_thread {k : Fin 2} {written : Bool} (hrun : s.threadStep L P t k written = .ok s')
    (p : ℕ) : s'.fdOf p = s.fdOf p := by
  obtain ⟨worker, out, -, rfl | ⟨msgNode, -, hhandle⟩⟩ := threadStep_inv hrun
  · rfl
  · rcases handleTestMsg_inv hhandle with rfl | ⟨q, h, b, bev, reply, -, -, -, hb, -, rfl⟩
    · rfl
    · rw [fdOf, Heap.get?_set hb]
      split
      · rename_i hpb
        rw [hpb, fdOf]
        exact (congrArg (Option.map Bufferevent.fd) hb).symm
      · rfl

/-- **A callback leaves the others alone.** -/
theorem step_intact (hi : Inv L s) {e : Event} (ha : ∀ b, e.callback = some b → s.Alone b)
    (hstep : step L P t s e = .ok s') {p : ℕ} (hp : s.Live p) (hother : e.callback ≠ some p) :
    Intact s s' p := by
  have ho := hi.base.objects
  have hc := hi.base.connected
  have ho' := (step_inv hi hstep).base.objects
  cases step_effect ho hstep with
  | idle => exact intact_of ho ho hp rfl rfl fun _ => Iff.rfl
  | accept hopen hfd =>
    have hne : p ≠ s.bufferevents.next := (hp.lt_next ho).ne
    refine intact_of ho ho' hp ?_ ?_ ?_
    · rw [tcpHandler_accept hfd, ho.next, if_neg hne]
    · rw [fdOf_accept hfd, if_neg hne]
    · intro connId
      rw [(maps_accept ho hfd).2.1, conMap_get_insertIfNew]
      by_cases hnew : connIdOf s.bufferevents.next = connId ∧
          s.m_mapConHandlers[connIdOf s.bufferevents.next]? = none
      · rw [if_pos hnew, ← hnew.1, hnew.2]
        refine iff_of_false ?_ fun h => by cases h
        exact fun h => hne (Option.some.inj (Option.some.inj h)).symm
      · rw [if_neg hnew]
  | arrive hb =>
    refine intact_of ho ho' hp rfl ?_ fun _ => Iff.rfl
    rw [fdOf, Heap.get?_set hb]
    split
    · rename_i hpb
      rw [fdOf, hpb, hb]
      rfl
    · rfl
  | @read b bev s' hb hrun =>
    exact intact_read hi hb (ha b rfl) hrun hp fun h => hother (congrArg some h.symm)
  | @error b bev s' hb hrun =>
    exact intact_erase ho hc hb (ha b rfl) hrun hp fun h => hother (congrArg some h.symm)
  | thread hrun =>
    have hf := step_threadFrame hrun
    exact intact_of ho ho' hp (by rw [hf.tcpHandlers]) (fdOf_thread hrun p)
      fun connId => by rw [hf.conMap]

/-! ## Runs -/

/-- **Teardown isolation.** While every callback is for a bufferevent that is alone with its
descriptor and its id, a connection that gets no callback itself keeps its entries, its handler and
its socket. -/
theorem teardown_isolated (L : IntLayout) (P : Protobuf) (before after : List Event)
    (s s' : NetWorkSystem) (hrun : run L P before = .ok s)
    (hrun' : run L P (before ++ after) = .ok s')
    (halone : Run.EachStep (fun done => run L P (before ++ done))
      (fun s₁ e => ∀ b, e.callback = some b → s₁.Alone b) after)
    (p : ℕ) (hp : s.Live p) (hother : ∀ e ∈ after, e.callback ≠ some p) : Intact s s' p := by
  have hok : Run.EachStep (fun done => run L P (before ++ done))
      (fun s₁ e => (∀ b, e.callback = some b → s₁.Alone b) ∧ e.callback ≠ some p) after := by
    intro done e rest s₁ hsplit hrun₁
    exact ⟨halone done e rest s₁ hsplit hrun₁, hother e (by simp [hsplit])⟩
  refine (Run.induction_of_eachStep (fun s₁ e s₂ => ∃ t, step L P t s₁ e = .ok s₂)
    (fun s₁ => Inv L s₁ ∧ Intact s s₁ p) ?_ ?_ ?_ hok hrun').2
  · intro done e s₂ hrun₂
    rw [← List.append_assoc] at hrun₂
    exact Run.of_start_concat hrun₂
  · intro s₁ hrun₁
    rw [List.append_nil] at hrun₁
    obtain rfl := Except.ok.inj (hrun.symm.trans hrun₁)
    have hi := run_inv hrun
    have ho := hi.base.objects
    exact ⟨hi, intact_of ho ho hp rfl rfl fun _ => Iff.rfl⟩
  · rintro s₁ e s₂ ⟨hi, hintact⟩ ⟨ha, hne⟩ ⟨t, hstep⟩
    have hp₁ : s₁.Live p := by
      rw [Live, hintact.handler]
      exact hp
    exact ⟨step_inv hi hstep, hintact.trans (step_intact hi ha hstep hp₁ hne)⟩

/-- Two connections, of which the first one is erased. -/
def firstErased : List Event := [.accept 5, .accept 6, .error 0]

/-- A late error of the first connection, whose descriptor has not been handed out again. -/
theorem teardown_isolated_lateError :
    ∃ s s', run .little echo firstErased = .ok s ∧
      run .little echo (firstErased ++ [.error 0]) = .ok s' ∧ s.Live 1 ∧ Intact s s' 1 := by
  obtain ⟨s, hs, hnext, hlive, hdead, hfds⟩ :
      ∃ s, firstErased.foldlM (step .little echo .firstRegistered) initial = .ok s ∧
        s.bufferevents.next = 2 ∧ s.Live 1 ∧ ¬ s.Live 0 ∧ s.fdOf 1 ≠ s.fdOf 0 :=
    ⟨_, rfl, by decide, by decide, by decide, by decide⟩
  have hrun : run .little echo firstErased = .ok s := (run_eq _ _ _).trans hs
  obtain ⟨s', hs'⟩ : ∃ s', run .little echo (firstErased ++ [.error 0]) = .ok s' :=
    ⟨_, (run_eq _ _ _).trans rfl⟩
  refine ⟨s, s', hrun, hs', hlive, ?_⟩
  refine teardown_isolated .little echo firstErased [.error 0] s s' hrun hs' ?_ 1 hlive
    (by simp [Event.callback])
  rw [← List.nil_append [Event.error 0], Run.eachStep_concat]
  refine ⟨Run.eachStep_nil, ?_⟩
  rintro s₁ hrun₁ b ⟨⟩
  obtain rfl := Except.ok.inj (hrun.symm.trans hrun₁)
  intro p hp hne
  have hlt := hp.lt_next (run_inv hrun).base.objects
  obtain rfl : p = 1 := by omega
  exact ⟨hfds, fun h => absurd h hdead⟩

/-- The descriptor of the first connection is handed out again, and the late error of its
bufferevent erases the second one. -/
theorem late_error_erases :
    ∃ s s', run .little echo [.accept 5, .error 0, .accept 5] = .ok s ∧
      run .little echo ([.accept 5, .error 0, .accept 5] ++ [.error 0]) = .ok s' ∧ s.Live 1 ∧
      s.m_mapConHandlers[(2 : UInt64)]? = some (some 1) ∧ ¬ s'.Live 1 ∧
      s'.m_mapConHandlers[(2 : UInt64)]? = none ∧ s.fdOf 1 = some 5 ∧ 5 ∉ s'.openFds :=
  ⟨_, _, (run_eq _ _ _).trans rfl, (run_eq _ _ _).trans rfl, by decide, by decide, by decide,
    by decide, by decide, by decide⟩

end NetWorkSystem

end SmartServer
