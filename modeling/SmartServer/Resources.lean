import SmartServer.Teardown

/-!
# What a connection takes, and what is given back

A connection takes a socket and a bufferevent. The ledger records the calls that create them and
give them back (`Call`), in the order the code makes them: `evutil_closesocket` is called by
`eraseConnection`, and `bufferevent_free` by the destructor of the handler, when the pointer is
`NULL`. A descriptor belongs to the socket that was accepted with it last, and freeing a
bufferevent closes its descriptor.

**Theorem (`conserved_iff`).** The resources are accounted for in every state of a run if and only
if the run tears down no connection. The destructor tests its pointer the wrong way round, so no
bufferevent is ever freed, and `release` closes none of the sockets (`erased_leaks`).
-/

namespace SmartServer

open NetWorkSystem (Inv)

/-! ## The ledger -/

/-- The calls that create resources, or give them back. -/
inductive Call
  | bufferevent_socket_new (bev : ℕ) (fd : ℤ)
  | evutil_closesocket (fd : ℤ)
  | bufferevent_free (bev : Option ℕ)
deriving DecidableEq

structure Ledger where
  /-- The bufferevents created, with their descriptors. -/
  created : List (ℕ × ℤ)
  /-- What `bufferevent_free` was called with. -/
  freed : List (Option ℕ)
  /-- The bufferevent each open socket was accepted for. -/
  sockets : ℤ → Option ℕ
  /-- The bufferevents whose sockets were closed. -/
  closed : List ℕ

namespace Ledger

def empty : Ledger := ⟨[], [], fun _ => none, []⟩

/-- A descriptor that is not open is not closed. -/
def close (l : Ledger) (fd : ℤ) : Ledger :=
  match l.sockets fd with
  | none => l
  | some b => { l with sockets := Function.update l.sockets fd none, closed := l.closed ++ [b] }

def call (l : Ledger) : Call → Ledger
  | .bufferevent_socket_new bev fd =>
    { l with
      created := l.created ++ [(bev, fd)]
      sockets := Function.update l.sockets fd (some bev) }
  | .evutil_closesocket fd => l.close fd
  | .bufferevent_free bev =>
    let l := { l with freed := l.freed ++ [bev] }
    match bev.bind fun b => l.created.lookup b with
    | none => l
    | some fd => l.close fd

def calls (l : Ledger) (cs : List Call) : Ledger := cs.foldl call l

end Ledger

/-! ## The calls of the code -/

/-- The calls of `~TcpHandler`. -/
def TcpHandler.destructorCalls (h : TcpHandler) : List Call :=
  if h.m_pBufferevent = none then [.bufferevent_free h.m_pBufferevent] else []

namespace NetWorkSystem

/-- The handler a callback for `bev` finds. -/
def tcpHandlerOf (s : NetWorkSystem) (bev : ℕ) : Option TcpHandler := do
  let b ← s.bufferevents.get? bev
  let p ← s.m_mapTcpHandlers[b.fd]?.join
  s.tcpHandlers.get? p

/-- The calls of `eraseConnection`. -/
def eraseConnectionCalls (s : NetWorkSystem) (bev : ℕ) : List Call :=
  match s.bufferevents.get? bev with
  | none => []
  | some b =>
    .evutil_closesocket b.fd :: (s.tcpHandlerOf bev).toList.flatMap TcpHandler.destructorCalls

variable (L : IntLayout)

/-- The calls of `dealReadEvent`. -/
def dealReadEventCalls (s : NetWorkSystem) (bev : ℕ) : List Call :=
  match s.tcpHandlerOf bev with
  | none => []
  | some tcpHandler =>
    match tcpHandler.m_pBufferevent.bind s.bufferevents.get? with
    | none => []
    | some own =>
      match tcpHandler.dealReadEvent L mallocOk 1 own.input with
      | .error _ => []
      | .ok r => if r.success = 0 then s.eraseConnectionCalls bev else []

/-- The calls of an event. -/
def calls (s : NetWorkSystem) : Event → List Call
  | .accept fd =>
    if fd ∈ s.openFds ∨ fd = -1 then [] else [.bufferevent_socket_new s.bufferevents.next fd]
  | .read bev => s.dealReadEventCalls L bev
  | .error bev => s.eraseConnectionCalls bev
  | .arrive _ _ => []
  | .thread _ _ => []

/-- The calls of `release`. -/
def releaseCalls (s : NetWorkSystem) : List Call :=
  s.m_mapTcpHandlers.toList.flatMap fun x =>
    (x.2.bind s.tcpHandlers.get?).toList.flatMap TcpHandler.destructorCalls

end NetWorkSystem

/-! ## Runs -/

/-- The system, with its ledger. -/
structure Resources where
  system : NetWorkSystem
  ledger : Ledger

namespace Resources

inductive Event
  | system (e : NetWorkSystem.Event)
  | release

variable (L : IntLayout) (P : Protobuf)

def step (t : MsgHandler) (r : Resources) : Event → Exec Resources
  | .system e => do
    let system ← NetWorkSystem.step L P t r.system e
    pure ⟨system, r.ledger.calls (r.system.calls L e)⟩
  | .release => do
    let system ← r.system.release
    pure ⟨system, r.ledger.calls r.system.releaseCalls⟩

def run (events : List Event) : Exec Resources := do
  let t ← MsgHandler.started
  events.foldlM (step L P t) ⟨.initial, .empty⟩

variable {L P} {t : MsgHandler} {r r' : Resources} {s s' : NetWorkSystem}

/-! ## The accounts -/

/-- `b` is the `m_pBufferevent` of a handler in `m_mapTcpHandlers`. -/
def Owned (s : NetWorkSystem) (b : ℕ) : Prop :=
  ∃ (fd : ℤ) (p : ℕ) (h : TcpHandler), s.m_mapTcpHandlers[fd]? = some (some p) ∧
    s.tcpHandlers.get? p = some h ∧ h.m_pBufferevent = some b

/-- A bufferevent that was created is not freed and its socket is not closed as long as a handler
owns it, and both have happened once when none does any more. -/
structure Conserved (r : Resources) : Prop where
  unfreed : ∀ b, (b ∈ r.ledger.created.map Prod.fst ∧ some b ∉ r.ledger.freed) ↔ Owned r.system b
  freedOnce : ∀ b ∈ r.ledger.created.map Prod.fst, ¬ Owned r.system b →
    r.ledger.freed.count (some b) = 1
  notNull : none ∉ r.ledger.freed
  unclosed : ∀ b, Owned r.system b → b ∉ r.ledger.closed
  closedOnce : ∀ b ∈ r.ledger.created.map Prod.fst, ¬ Owned r.system b →
    r.ledger.closed.count b = 1

/-- The event ends connection `p`. -/
def TearsDown (L : IntLayout) (r : Resources) (p : ℕ) : Event → Prop
  | .system e => r.system.TearsDown L p e
  | .release => r.system.Live p

theorem owned_iff (hi : Inv L s) {b : ℕ} : Owned s b ↔ s.Live b := by
  have ho := hi.base.objects
  constructor
  · rintro ⟨fd, p, h, -, hh, hb⟩
    obtain rfl : b = p := Option.some.inj (hb.symm.trans (hi.base.connected p h hh).2)
    rw [NetWorkSystem.Live, hh]
    rfl
  · intro hl
    obtain ⟨h, hh⟩ := Option.isSome_iff_exists.mp hl
    obtain ⟨fd, hf⟩ := Option.isSome_iff_exists.mp (ho.created b (hl.lt_next ho))
    exact ⟨fd, b, h, (ho.tcpMap fd _).mpr ⟨b, rfl, hl, hf⟩, hh, (hi.base.connected b h hh).2⟩

/-! ## The calls that are made -/

theorem tcpHandlerOf_inv {b : ℕ} {h : TcpHandler} (hb : s.tcpHandlerOf b = some h) :
    ∃ p, s.Finds b p ∧ s.tcpHandlers.get? p = some h := by
  obtain ⟨bev, hbev, hb⟩ := Option.bind_eq_some_iff.mp hb
  obtain ⟨p, hp, hh⟩ := Option.bind_eq_some_iff.mp hb
  exact ⟨p, (NetWorkSystem.finds_of_get hbev p).mpr (Option.join_eq_some_iff.mp hp), hh⟩

/-- No destructor calls anything. -/
theorem destructorCalls_eq_nil (hc : NetWorkSystem.Connected s) {p : ℕ} {h : TcpHandler}
    (hh : s.tcpHandlers.get? p = some h) : h.destructorCalls = [] := by
  rw [TcpHandler.destructorCalls, (hc p h hh).2]
  rfl

theorem eraseConnectionCalls_eq (hc : NetWorkSystem.Connected s) {b : ℕ} {bev : Bufferevent}
    (hb : s.bufferevents.get? b = some bev) :
    s.eraseConnectionCalls b = [.evutil_closesocket bev.fd] := by
  rw [NetWorkSystem.eraseConnectionCalls, hb]
  cases hh : s.tcpHandlerOf b with
  | none => rfl
  | some h =>
    obtain ⟨p, -, hget⟩ := tcpHandlerOf_inv hh
    simp [destructorCalls_eq_nil hc hget]

/-- A read makes the calls of an erase, or none. -/
theorem dealReadEventCalls_cases (hi : Inv L s) (b : ℕ) :
    s.dealReadEventCalls L b = [] ∨
      s.dealReadEventCalls L b = s.eraseConnectionCalls b ∧ ∃ p, s.TearsDown L p (.read b) := by
  unfold NetWorkSystem.dealReadEventCalls
  cases hh : s.tcpHandlerOf b with
  | none => exact .inl rfl
  | some h =>
    obtain ⟨p, hp, hget⟩ := tcpHandlerOf_inv hh
    simp only [(hi.base.connected p h hget).2, TcpHandler.new, Option.bind_some]
    cases hown : s.bufferevents.get? p with
    | none => exact .inl rfl
    | some own =>
      cases hread : h.dealReadEvent L mallocOk 1 own.input with
      | error f => exact .inl (by simp only [hread])
      | ok r =>
        simp only [hread]
        by_cases hsucc : r.success = 0
        · exact .inr ⟨if_pos hsucc, p, hp, (hi.success_zero_iff hget hown hread).mp hsucc⟩
        · exact .inl (if_neg hsucc)

theorem releaseCalls_eq_nil (hc : NetWorkSystem.Connected s) : s.releaseCalls = [] := by
  rw [NetWorkSystem.releaseCalls, List.flatMap_eq_nil_iff]
  rintro ⟨fd, q⟩ -
  rw [List.flatMap_eq_nil_iff]
  intro h hh
  obtain ⟨p, -, hget⟩ := Option.bind_eq_some_iff.mp (Option.mem_toList.mp hh)
  exact destructorCalls_eq_nil hc hget

/-- What the code calls: it creates a bufferevent, closes a socket, or does nothing. A socket is
closed for a bufferevent only, and not when it tears down nothing. -/
theorem calls_cases (hi : Inv L s) (e : NetWorkSystem.Event) :
    s.calls L e = [] ∨
      (∃ fd, e = .accept fd ∧ fd ∉ s.openFds ∧ fd ≠ -1 ∧
        s.calls L e = [.bufferevent_socket_new s.bufferevents.next fd]) ∨
      ∃ b fd, e.callback = some b ∧ b < s.bufferevents.next ∧
        s.calls L e = [.evutil_closesocket fd] ∧
        ((∃ p, s.TearsDown L p e) ∨ e = .error b) := by
  have hc := hi.base.connected
  cases e with
  | accept fd =>
    rw [NetWorkSystem.calls]
    by_cases h : fd ∈ s.openFds ∨ fd = -1
    · exact .inl (if_pos h)
    · obtain ⟨hopen, hfd⟩ := not_or.mp h
      exact .inr (.inl ⟨fd, rfl, hopen, hfd, if_neg h⟩)
  | arrive b bytes => exact .inl rfl
  | thread k written => exact .inl rfl
  | read b =>
    rcases dealReadEventCalls_cases hi b with h | ⟨h, hp⟩
    · exact .inl h
    · obtain ⟨p, ⟨fd, hfd, -⟩, -⟩ := id hp
      obtain ⟨bev, hb, -⟩ := Option.map_eq_some_iff.mp hfd
      refine .inr (.inr ⟨b, bev.fd, rfl, Heap.lt_next_of_get? hb, ?_, .inl hp⟩)
      exact h.trans (eraseConnectionCalls_eq hc hb)
  | error b =>
    cases hb : s.bufferevents.get? b with
    | none =>
      left
      rw [NetWorkSystem.calls, NetWorkSystem.eraseConnectionCalls, hb]
    | some bev =>
      exact .inr (.inr ⟨b, bev.fd, rfl, Heap.lt_next_of_get? hb, eraseConnectionCalls_eq hc hb,
        .inr rfl⟩)

/-! ## The books -/

/-- All connections there have been are alive. -/
def AllLive (s : NetWorkSystem) : Prop := ∀ p, p < s.bufferevents.next → s.Live p

/-- What the ledger says in every state. -/
structure Books (L : IntLayout) (r : Resources) : Prop where
  system : Inv L r.system
  created : r.ledger.created.map Prod.fst = List.range r.system.bufferevents.next
  freed : r.ledger.freed = []
  closed : AllLive r.system → r.ledger.closed = []

theorem books_initial (L : IntLayout) : Books L ⟨.initial, .empty⟩ :=
  ⟨NetWorkSystem.inv_initial L, rfl, rfl, fun _ => rfl⟩

theorem close_created (l : Ledger) (fd : ℤ) :
    (l.close fd).created = l.created ∧ (l.close fd).freed = l.freed := by
  unfold Ledger.close
  split
  · exact ⟨rfl, rfl⟩
  · exact ⟨rfl, rfl⟩

theorem allLive_kept (h : s.Kept s') : AllLive s' ↔ AllLive s := by
  simp only [AllLive, h.next, h.live]

theorem allLive_accept (hi : Inv L s) {fd : ℤ} (hfd : fd ≠ -1) :
    AllLive (s.listener_read_cb fd) ↔ AllLive s := by
  have hlive := NetWorkSystem.live_accept hi.base.objects hfd
  simp only [AllLive, hlive, (NetWorkSystem.next_accept (s := s) hfd).1]
  constructor
  · intro hall p hp
    exact (hall p (Nat.lt_succ_of_lt hp)).resolve_left hp.ne
  · intro hall p hp
    rcases Nat.lt_succ_iff_lt_or_eq.mp hp with hp | rfl
    · exact .inr (hall p hp)
    · exact .inl rfl

theorem not_allLive_torn (hi : Inv L s) {p : ℕ} {e : NetWorkSystem.Event}
    (hp : s.TearsDown L p e) (h : s.Torn s' p) : ¬ AllLive s' := by
  intro hall
  obtain ⟨b, -, hfinds⟩ := hp.finds
  obtain ⟨hl, -, -⟩ := (NetWorkSystem.finds_iff hi.base.objects).mp hfinds
  have hlt := hl.lt_next hi.base.objects
  exact ((h.live p).mp (hall p (h.next ▸ hlt))).2 rfl

/-- When all connections are alive, a socket is closed only for one that is torn down. -/
theorem tearsDown_of_closes (hi : Inv L s) (hall : AllLive s) {b : ℕ} {e : NetWorkSystem.Event}
    (hlt : b < s.bufferevents.next) (h : (∃ p, s.TearsDown L p e) ∨ e = .error b) :
    ∃ p, s.TearsDown L p e := by
  rcases h with h | rfl
  · exact h
  · exact ⟨b, (NetWorkSystem.finds_iff hi.base.objects).mpr ⟨hall b hlt, hlt, rfl⟩⟩

theorem books_system (hr : Books L r) {e : NetWorkSystem.Event}
    (hstep : NetWorkSystem.step L P t r.system e = .ok s') :
    Books L ⟨s', r.ledger.calls (r.system.calls L e)⟩ := by
  obtain ⟨hi, hcreated, hfreed, hclosed⟩ := hr
  have hi' := NetWorkSystem.step_inv hi hstep
  -- calls that create nothing leave the books right, unless they close the socket of a connection
  -- that is not torn down
  have hsame : s'.bufferevents.next = r.system.bufferevents.next →
      (r.system.calls L e = [] ∨ ∃ fd, r.system.calls L e = [.evutil_closesocket fd]) →
      (AllLive s' → r.system.calls L e = [] ∧ AllLive r.system) →
      Books L ⟨s', r.ledger.calls (r.system.calls L e)⟩ := by
    intro hnext hcalls hnone
    refine ⟨hi', ?_, ?_, ?_⟩
    · show (r.ledger.calls _).created.map Prod.fst = List.range s'.bufferevents.next
      rw [hnext, ← hcreated]
      rcases hcalls with h | ⟨fd, h⟩
      · rw [h]
        rfl
      · rw [h]
        exact congrArg _ (close_created r.ledger fd).1
    · rcases hcalls with h | ⟨fd, h⟩
      · rw [h]
        exact hfreed
      · rw [h]
        exact (close_created r.ledger fd).2.trans hfreed
    · intro hall
      obtain ⟨h, hall'⟩ := hnone hall
      rw [h]
      exact hclosed hall'
  cases NetWorkSystem.step_change hi hstep with
  | @accepted fd he hopen hfd =>
    subst he
    have hcalls : r.system.calls L (.accept fd) =
        [.bufferevent_socket_new r.system.bufferevents.next fd] := if_neg (not_or.mpr ⟨hopen, hfd⟩)
    rw [hcalls]
    refine ⟨hi', ?_, hfreed, fun hall => hclosed ((allLive_accept hi hfd).mp hall)⟩
    show (r.ledger.created ++ [(r.system.bufferevents.next, fd)]).map Prod.fst = List.range _
    rw [(NetWorkSystem.next_accept hfd).1, List.range_succ, List.map_append, hcreated]
    rfl
  | torn hp htorn =>
    apply hsame htorn.next
    · rcases calls_cases hi e with h | ⟨fd, rfl, -⟩ | ⟨b, fd, -, -, h, -⟩
      · exact .inl h
      · exact hp.elim
      · exact .inr ⟨fd, h⟩
    · exact fun hall => absurd hall (not_allLive_torn hi hp htorn)
  | kept hnone hkept =>
    rcases calls_cases hi e with h | ⟨fd, rfl, hopen, hfd, -⟩ | ⟨b, fd, -, hlt, h, htears⟩
    · exact hsame hkept.next (.inl h) fun hall => ⟨h, (allLive_kept hkept).mp hall⟩
    · -- the connection would have been accepted
      obtain rfl := Except.ok.inj hstep
      have hnext := hkept.next
      rw [if_neg hopen, (NetWorkSystem.next_accept hfd).1] at hnext
      omega
    · apply hsame hkept.next (.inr ⟨fd, h⟩)
      intro hall
      have hall' := (allLive_kept hkept).mp hall
      obtain ⟨p, hp⟩ := tearsDown_of_closes hi hall' hlt htears
      exact absurd hp (hnone p)

/-- The books stay right. -/
theorem step_books (hr : Books L r) {e : Event} (hstep : step L P t r e = .ok r') :
    Books L r' := by
  cases e with
  | system e =>
    obtain ⟨system, hsystem, hend⟩ := Run.of_bind hstep
    obtain rfl := Except.ok.inj hend
    exact books_system hr hsystem
  | release =>
    obtain ⟨system, hsystem, hend⟩ := Run.of_bind hstep
    obtain rfl := Except.ok.inj hend
    obtain ⟨hi, hcreated, hfreed, hclosed⟩ := hr
    obtain ⟨handlers, h, hnext, hdead⟩ :=
      NetWorkSystem.release_eq hi.base.objects hi.base.connected
    obtain rfl := Except.ok.inj (h.symm.trans hsystem)
    rw [releaseCalls_eq_nil hi.base.connected]
    refine ⟨hi.release hsystem, hcreated, hfreed, fun hall => hclosed fun p hp => ?_⟩
    have hl := hall p hp
    rw [NetWorkSystem.Live, NetWorkSystem.released, hdead] at hl
    cases hl

/-- The resources are accounted for as long as every connection there has been is alive. -/
theorem Books.conserved_iff_live (hr : Books L r) : Conserved r ↔ AllLive r.system := by
  obtain ⟨hi, hcreated, hfreed, hclosed⟩ := hr
  constructor
  · intro hc p hp
    rw [← owned_iff hi]
    refine (hc.unfreed p).mp ⟨?_, by rw [hfreed]; exact List.not_mem_nil⟩
    rw [hcreated]
    exact List.mem_range.mpr hp
  · intro hall
    have howned : ∀ b ∈ r.ledger.created.map Prod.fst, Owned r.system b := by
      intro b hb
      rw [hcreated] at hb
      exact (owned_iff hi).mpr (hall b (List.mem_range.mp hb))
    refine ⟨?_, ?_, ?_, ?_, ?_⟩
    · intro b
      rw [hfreed]
      refine ⟨fun h => howned b h.1, fun h => ⟨?_, List.not_mem_nil⟩⟩
      rw [hcreated]
      exact List.mem_range.mpr (((owned_iff hi).mp h).lt_next hi.base.objects)
    · exact fun b hb h => absurd (howned b hb) h
    · rw [hfreed]
      exact List.not_mem_nil
    · intro b _
      rw [hclosed hall]
      exact List.not_mem_nil
    · exact fun b hb h => absurd (howned b hb) h

/-- **From a state in which all connections are alive**, the events that keep it so are those that
tear down none. -/
theorem step_allLive_iff (hr : Books L r) (hall : AllLive r.system) {e : Event}
    (hstep : step L P t r e = .ok r') :
    AllLive r'.system ↔ ∀ p, ¬ r.TearsDown L p e := by
  have hi := hr.system
  cases e with
  | system e =>
    obtain ⟨system, hsystem, hend⟩ := Run.of_bind hstep
    obtain rfl := Except.ok.inj hend
    cases NetWorkSystem.step_change hi hsystem with
    | accepted he hopen hfd =>
      subst he
      exact iff_of_true ((allLive_accept hi hfd).mpr hall) fun p h => h
    | @torn _ p hp htorn =>
      exact iff_of_false (not_allLive_torn hi hp htorn) fun h => h p hp
    | kept hnone hkept => exact iff_of_true ((allLive_kept hkept).mpr hall) hnone
  | release =>
    obtain ⟨system, hsystem, hend⟩ := Run.of_bind hstep
    obtain rfl := Except.ok.inj hend
    obtain ⟨handlers, h, hnext, hdead⟩ :=
      NetWorkSystem.release_eq hi.base.objects hi.base.connected
    obtain rfl := Except.ok.inj (h.symm.trans hsystem)
    constructor
    · intro hall' p hp
      have hl := hall' p (NetWorkSystem.Live.lt_next hi.base.objects hp)
      rw [NetWorkSystem.Live, NetWorkSystem.released, hdead] at hl
      cases hl
    · intro hnone p hp
      exact absurd (hall p hp) (hnone p)

/-! ## Runs -/

/-- **The resources are conserved** in all states of a run if and only if no event of the run tears
down a connection. -/
theorem conserved_iff (L : IntLayout) (P : Protobuf) (events : List Event) (r : Resources)
    (hrun : run L P events = .ok r) :
    (∀ before r₁, before <+: events → run L P before = .ok r₁ → Conserved r₁) ↔
      Run.EachStep (run L P) (fun r₁ e => ∀ p, ¬ r₁.TearsDown L p e) events := by
  refine Run.forall_prefix_iff_eachStep (fun r e r' => ∃ t, step L P t r e = .ok r') (Books L)
    (fun _ _ _ => Run.of_start_concat) ?_ ?_ ?_ hrun
  · intro r₁ hr₁
    obtain ⟨t, -, hr₁⟩ := Run.of_bind hr₁
    obtain rfl := Except.ok.inj hr₁
    have hb := books_initial L
    exact ⟨hb, hb.conserved_iff_live.mpr fun p hp => absurd hp (Nat.not_lt_zero p)⟩
  · rintro r₁ e r₂ hb ⟨t, hstep⟩
    exact step_books hb hstep
  · rintro r₁ e r₂ hb hgood ⟨t, hstep⟩
    rw [(step_books hb hstep).conserved_iff_live]
    exact step_allLive_iff hb (hb.conserved_iff_live.mp hgood) hstep

/-- All tables with the registrations make the same steps. -/
theorem step_congr {t' : MsgHandler} (ht : t.Registered) (ht' : t'.Registered) :
    step L P t = step L P t' := by
  funext r e
  cases e with
  | system e => rw [step, step, NetWorkSystem.step_congr ht ht']
  | release => rfl

/-- A run can be followed with the table after the first registration. -/
theorem run_eq (L : IntLayout) (P : Protobuf) (events : List Event) :
    run L P events = events.foldlM (step L P .firstRegistered) ⟨.initial, .empty⟩ :=
  MsgHandler.started_bind fun ht ht' => by rw [step_congr ht ht']

theorem run_books {events : List Event} (hrun : run L P events = .ok r) : Books L r := by
  obtain ⟨t, -, hrun⟩ := Run.of_bind hrun
  exact Run.induction (fun _ r => Books L r) (books_initial L)
    (fun _ _ _ _ hb hstep => step_books hb hstep) hrun

/-- One connection is accepted, and gets a message. -/
def request : List Event :=
  [.system (.accept 5), .system (.arrive 0 [0, 0, 0, 0, 1, 0, 0, 0, 65])]

theorem conserved_iff_request :
    ∃ r, run .little NetWorkSystem.echo (request ++ [.system (.read 0)]) = .ok r ∧
      Conserved r := by
  obtain ⟨r₁, r, hs₁, hs, hacc⟩ : ∃ r₁ r,
      request.foldlM (step .little NetWorkSystem.echo .firstRegistered) ⟨.initial, .empty⟩ =
        .ok r₁ ∧
      (request ++ [Event.system (.read 0)]).foldlM
        (step .little NetWorkSystem.echo .firstRegistered) ⟨.initial, .empty⟩ = .ok r ∧
      ∀ c ∈ r₁.system.bufferevents.cells, ∀ bev ∈ c, (decode .little bev.arrived).2 ≠ .refused :=
    ⟨_, _, rfl, rfl, by decide⟩
  have hrun₁ := (run_eq .little NetWorkSystem.echo request).trans hs₁
  have hrun := (run_eq .little NetWorkSystem.echo (request ++ [.system (.read 0)])).trans hs
  have heach : Run.EachStep (run .little NetWorkSystem.echo)
      (fun r₁ e => ∀ p, ¬ TearsDown .little r₁ p e) (request ++ [.system (.read 0)]) := by
    rw [Run.eachStep_concat]
    constructor
    · apply Run.eachStep_of_forall
      intro e he r₂ p hp
      rcases List.mem_pair.mp he with rfl | rfl
      · exact hp
      · exact hp
    · rintro r₂ hr₂ p ⟨-, bev, hbev, href⟩
      obtain rfl := Except.ok.inj (hr₂.symm.trans hrun₁)
      exact Heap.forall_get? hacc hbev href
  exact ⟨r, hrun, (conserved_iff .little _ _ r hrun).mpr heach _ r List.prefix_rfl hrun⟩

/-- A connection that fails is erased, and its bufferevent stays. -/
theorem erased_leaks :
    ∃ r, run .little NetWorkSystem.echo [.system (.accept 5), .system (.error 0)] = .ok r ∧
      r.ledger.created = [(0, 5)] ∧ r.ledger.freed = [] ∧ r.ledger.closed = [0] ∧
      ¬ Owned r.system 0 ∧ ¬ Conserved r := by
  obtain ⟨r, hs, hcreated, hfreed, hclosed, hdead⟩ : ∃ r,
      [Event.system (.accept 5), .system (.error 0)].foldlM
        (step .little NetWorkSystem.echo .firstRegistered) ⟨.initial, .empty⟩ = .ok r ∧
      r.ledger.created = [(0, 5)] ∧ r.ledger.freed = [] ∧ r.ledger.closed = [0] ∧
      ¬ r.system.Live 0 := ⟨_, rfl, by decide, by decide, by decide, by decide⟩
  have hrun := (run_eq .little NetWorkSystem.echo
    [.system (.accept 5), .system (.error 0)]).trans hs
  have howned : ¬ Owned r.system 0 := by
    rwa [owned_iff (run_books hrun).system]
  refine ⟨r, hrun, hcreated, hfreed, hclosed, howned, fun hc => howned ?_⟩
  exact (hc.unfreed 0).mp ⟨by simp [hcreated], by simp [hfreed]⟩

end Resources

end SmartServer
