import SmartServer.NetWorkSystem
import SmartServer.WorkerProgress
import SmartServer.Stands

/-!
# What the steps of the system do to its objects

One description for each operation of `SmartServer.NetWorkSystem` that can fail, and what the two
maps have to do with the objects they point to (`Objects`). `Effect` puts them together: it lists
what an event can do, and what the system keeps is proved by going through its cases.

Connections are numbered in the order they are accepted: connection `p` has the handler at address
`p`, the bufferevent at address `p`, and the id `connIdOf p`. `m_mapTcpHandlers` holds exactly the
handlers that are alive, each under the descriptor of its bufferevent. `m_mapConHandlers` holds
nothing but handlers that are alive, each under its id; it holds all of them as long as the count
of connections has not wrapped.
-/

namespace SmartServer

open TcpHandler (SameConn)

theorem deref_inv {α : Type} {m : Heap α} {p : Option ℕ} {q : ℕ} {a : α}
    (h : deref m p = .ok (q, a)) : p = some q ∧ m.get? q = some a := by
  unfold deref at h
  split at h
  · cases h
  · split at h
    · cases h
    · rename_i ha
      obtain ⟨rfl, rfl⟩ := Prod.mk.inj (Except.ok.inj h)
      exact ⟨rfl, ha⟩

theorem deref_ok {α : Type} {m : Heap α} {p : ℕ} {a : α} (h : m.get? p = some a) :
    deref m (some p) = .ok (p, a) := by
  simp only [deref, h]

namespace NetWorkSystem

variable {s s' : NetWorkSystem}

/-! ## Objects and maps -/

def connIdOf (p : ℕ) : UInt64 := UInt64.ofNat (p + 1)

/-- The handler of connection `p` has not been deleted. -/
def Live (s : NetWorkSystem) (p : ℕ) : Prop := (s.tcpHandlers.get? p).isSome

def fdOf (s : NetWorkSystem) (p : ℕ) : Option ℤ := (s.bufferevents.get? p).map Bufferevent.fd

/-- Fewer than `2 ^ 64` connections have been accepted. -/
def Few (s : NetWorkSystem) : Prop := s.connections.length < 2 ^ 64

structure Objects (s : NetWorkSystem) : Prop where
  connections : s.connections = (List.range s.bufferevents.next).map fun p => (connIdOf p, p)
  counter : s.m_nConnId = UInt64.ofNat s.bufferevents.next
  next : s.tcpHandlers.next = s.bufferevents.next
  created : ∀ p, p < s.bufferevents.next → (s.fdOf p).isSome
  tcpMap : ∀ fd q, s.m_mapTcpHandlers[fd]? = some q ↔
    ∃ p, q = some p ∧ s.Live p ∧ s.fdOf p = some fd
  fdsOpen : ∀ p fd, s.Live p → s.fdOf p = some fd → fd ∈ s.openFds
  conMap : ∀ connId q, s.m_mapConHandlers[connId]? = some q →
    ∃ p, q = some p ∧ s.Live p ∧ connIdOf p = connId
  conMap_live : s.Few → ∀ p, s.Live p → s.m_mapConHandlers[connIdOf p]? = some (some p)

theorem Objects.length_connections (ho : Objects s) :
    s.connections.length = s.bufferevents.next := by
  rw [ho.connections, List.length_map, List.length_range]

theorem Live.lt_next (ho : Objects s) {p : ℕ} (hp : s.Live p) : p < s.bufferevents.next := by
  obtain ⟨h, hh⟩ := Option.isSome_iff_exists.mp hp
  rw [← ho.next]
  exact Heap.lt_next_of_get? hh

/-- Ids do not repeat as long as the count has not wrapped. -/
theorem connIdOf_inj {n p q : ℕ} (hn : n < 2 ^ 64) (hp : p < n) (hq : q < n)
    (h : connIdOf p = connIdOf q) : p = q := by
  have hnat := congrArg UInt64.toNat h
  rw [connIdOf, connIdOf, UInt64.toNat_ofNat_of_lt' (show _ < 2 ^ 64 by omega),
    UInt64.toNat_ofNat_of_lt' (show _ < 2 ^ 64 by omega)] at hnat
  omega

/-- The objects are looked at through the maps, the addresses that are alive, and the descriptors
only. -/
theorem Objects.congr (ho : Objects s) (hconn : s'.connections = s.connections)
    (hid : s'.m_nConnId = s.m_nConnId) (hfds : s'.openFds = s.openFds)
    (htcp : s'.m_mapTcpHandlers = s.m_mapTcpHandlers)
    (hcon : s'.m_mapConHandlers = s.m_mapConHandlers)
    (hnext : s'.tcpHandlers.next = s.tcpHandlers.next)
    (hnext' : s'.bufferevents.next = s.bufferevents.next) (hlive : ∀ p, s'.Live p ↔ s.Live p)
    (hfd : ∀ p, s'.fdOf p = s.fdOf p) : Objects s' where
  connections := by rw [hconn, hnext']; exact ho.connections
  counter := by rw [hid, hnext']; exact ho.counter
  next := by rw [hnext, hnext']; exact ho.next
  created p hp := by rw [hfd]; exact ho.created p (hnext' ▸ hp)
  tcpMap fd q := by
    rw [htcp, ho.tcpMap]
    simp only [hlive, hfd]
  fdsOpen p fd hp hf := by
    rw [hfds]
    exact ho.fdsOpen p fd ((hlive p).mp hp) (hfd p ▸ hf)
  conMap connId q hq := by
    obtain ⟨p, hp, hl, hc⟩ := ho.conMap connId q (hcon ▸ hq)
    exact ⟨p, hp, (hlive p).mpr hl, hc⟩
  conMap_live hfew p hp := by
    rw [hcon]
    exact ho.conMap_live (by rwa [Few, hconn] at hfew) p ((hlive p).mp hp)

theorem Objects.setTcpHandler (ho : Objects s) {p : ℕ} {h : TcpHandler}
    (hp : s.tcpHandlers.get? p = some h) (h' : TcpHandler) :
    Objects { s with tcpHandlers := s.tcpHandlers.set p h' } := by
  refine ho.congr rfl rfl rfl rfl rfl (Heap.next_set _ _ _) rfl ?_ fun _ => rfl
  intro q
  simp only [Live, Heap.get?_set hp]
  by_cases hq : q = p
  · simp [hq, hp]
  · simp [hq]

theorem Objects.setBufferevent (ho : Objects s) {b : ℕ} {bev bev' : Bufferevent}
    (hb : s.bufferevents.get? b = some bev) (hfd : bev'.fd = bev.fd) :
    Objects { s with bufferevents := s.bufferevents.set b bev' } := by
  refine ho.congr rfl rfl rfl rfl rfl rfl (Heap.next_set _ _ _) (fun _ => Iff.rfl) ?_
  intro q
  simp only [fdOf, Heap.get?_set hb]
  by_cases hq : q = b
  · simp [hq, hb, hfd]
  · simp [hq]

theorem objects_initial : Objects initial where
  connections := rfl
  counter := rfl
  next := rfl
  created _ hp := absurd hp (Nat.not_lt_zero _)
  tcpMap fd q := by simp [initial, Live]
  fdsOpen p fd hp := by simp [initial, Live] at hp
  conMap connId q hq := by simp [initial] at hq
  conMap_live _ p hp := by simp [initial, Live] at hp

/-! ## Accepting -/

theorem tcpMap_get_insertIfNew (m : Std.TreeMap ℤ (Option ℕ)) (fd fd' : ℤ) (q : Option ℕ) :
    (m.insertIfNew fd q)[fd']? = if fd = fd' ∧ m[fd]? = none then some q else m[fd']? := by
  rw [Std.TreeMap.getElem?_insertIfNew]
  simp only [Std.LawfulEqCmp.compare_eq_iff_eq, Std.TreeMap.mem_iff_isSome_getElem?,
    Bool.not_eq_true, Option.isSome_eq_false_iff, Option.isNone_iff_eq_none]

theorem conMap_get_insertIfNew (m : Std.TreeMap UInt64 (Option ℕ)) (c c' : UInt64)
    (q : Option ℕ) :
    (m.insertIfNew c q)[c']? = if c = c' ∧ m[c]? = none then some q else m[c']? := by
  rw [Std.TreeMap.getElem?_insertIfNew]
  simp only [Std.LawfulEqCmp.compare_eq_iff_eq, Std.TreeMap.mem_iff_isSome_getElem?,
    Bool.not_eq_true, Option.isSome_eq_false_iff, Option.isNone_iff_eq_none]

section Accept

variable {fd : ℤ}

theorem tcpHandler_accept (hfd : fd ≠ -1) (p : ℕ) :
    (s.listener_read_cb fd).tcpHandlers.get? p =
      if p = s.tcpHandlers.next then some (.new (s.m_nConnId + 1) (some s.bufferevents.next))
      else s.tcpHandlers.get? p := by
  rw [listener_read_cb, if_neg hfd]
  exact Heap.get?_alloc _ _ _

theorem bufferevent_accept (hfd : fd ≠ -1) (p : ℕ) :
    (s.listener_read_cb fd).bufferevents.get? p =
      if p = s.bufferevents.next then some ⟨fd, [], [], []⟩ else s.bufferevents.get? p := by
  rw [listener_read_cb, if_neg hfd]
  exact Heap.get?_alloc _ _ _

theorem live_accept (ho : Objects s) (hfd : fd ≠ -1) (p : ℕ) :
    (s.listener_read_cb fd).Live p ↔ p = s.bufferevents.next ∨ s.Live p := by
  rw [Live, tcpHandler_accept hfd, ho.next]
  by_cases hp : p = s.bufferevents.next
  · simp [hp]
  · simp [hp, Live]

theorem fdOf_accept (hfd : fd ≠ -1) (p : ℕ) :
    (s.listener_read_cb fd).fdOf p = if p = s.bufferevents.next then some fd else s.fdOf p := by
  rw [fdOf, bufferevent_accept hfd]
  by_cases hp : p = s.bufferevents.next
  · simp [hp]
  · simp [hp, fdOf]

theorem Objects.connId_next (ho : Objects s) :
    s.m_nConnId + 1 = connIdOf s.bufferevents.next := by
  rw [ho.counter, connIdOf, UInt64.ofNat_add]
  rfl

/-- What the accepted connection adds to the state, beside its two objects. -/
theorem maps_accept (ho : Objects s) (hfd : fd ≠ -1) :
    (s.listener_read_cb fd).m_mapTcpHandlers =
        s.m_mapTcpHandlers.insertIfNew fd (some s.bufferevents.next) ∧
      (s.listener_read_cb fd).m_mapConHandlers =
        s.m_mapConHandlers.insertIfNew (connIdOf s.bufferevents.next) (some s.bufferevents.next) ∧
      (s.listener_read_cb fd).m_nConnId = connIdOf s.bufferevents.next ∧
      (s.listener_read_cb fd).openFds = insert fd s.openFds ∧
      (s.listener_read_cb fd).connections =
        s.connections ++ [(connIdOf s.bufferevents.next, s.bufferevents.next)] := by
  rw [listener_read_cb, if_neg hfd]
  simp only [addConnection, ho.connId_next, ho.next, and_self]

theorem next_accept (hfd : fd ≠ -1) :
    (s.listener_read_cb fd).bufferevents.next = s.bufferevents.next + 1 ∧
      (s.listener_read_cb fd).tcpHandlers.next = s.tcpHandlers.next + 1 := by
  rw [listener_read_cb, if_neg hfd]
  exact ⟨Heap.next_alloc _ _, Heap.next_alloc _ _⟩

/-- No handler is under a descriptor that is not open. -/
theorem Objects.tcpMap_of_closed (ho : Objects s) (hopen : fd ∉ s.openFds) :
    s.m_mapTcpHandlers[fd]? = none := by
  by_contra hne
  obtain ⟨q, hq⟩ := Option.ne_none_iff_exists'.mp hne
  obtain ⟨p, -, hp, hf⟩ := (ho.tcpMap fd q).mp hq
  exact hopen (ho.fdsOpen p fd hp hf)

/-- No handler is under the next id, as long as the count does not wrap. -/
theorem Objects.conMap_next (ho : Objects s) (hn : s.bufferevents.next + 1 < 2 ^ 64) :
    s.m_mapConHandlers[connIdOf s.bufferevents.next]? = none := by
  by_contra hne
  obtain ⟨q, hq⟩ := Option.ne_none_iff_exists'.mp hne
  obtain ⟨p, -, hl, hc⟩ := ho.conMap _ q hq
  have hlt := hl.lt_next ho
  have := connIdOf_inj hn (by omega) (Nat.lt_succ_self _) hc
  omega

/-- The handlers that are alive, and their descriptors, after an accept. -/
theorem live_fdOf_accept (ho : Objects s) (hfd : fd ≠ -1) (p : ℕ) (fd' : ℤ) :
    ((s.listener_read_cb fd).Live p ∧ (s.listener_read_cb fd).fdOf p = some fd') ↔
      p = s.bufferevents.next ∧ fd = fd' ∨ s.Live p ∧ s.fdOf p = some fd' := by
  rw [live_accept ho hfd, fdOf_accept hfd]
  by_cases hN : p = s.bufferevents.next
  · have hself : ¬ s.Live p := fun h => absurd (h.lt_next ho) (by omega)
    simp [hN ▸ hself, hN]
  · simp [hN]

/-- The new connection is the next one, with a descriptor no handler is under. -/
theorem Objects.accept (ho : Objects s) (hopen : fd ∉ s.openFds) (hfd : fd ≠ -1) :
    Objects (s.listener_read_cb fd) := by
  have hlive := live_accept ho hfd
  have hlivefd := live_fdOf_accept ho hfd
  have hfree := ho.tcpMap_of_closed hopen
  obtain ⟨htcp, hcon, hid, hfds, hconns⟩ := maps_accept ho hfd
  obtain ⟨hnext, hnext'⟩ := next_accept (s := s) hfd
  refine ⟨?_, ?_, ?_, ?_, ?_, ?_, ?_, ?_⟩
  · rw [hconns, hnext, ho.connections, List.range_succ, List.map_append]
    rfl
  · rw [hid, hnext]
    rfl
  · rw [hnext, hnext', ho.next]
  · intro p hp
    rw [fdOf_accept hfd]
    by_cases hN : p = s.bufferevents.next
    · rw [if_pos hN]
      rfl
    · rw [if_neg hN]
      exact ho.created p (by omega)
  · intro fd' q
    rw [htcp, tcpMap_get_insertIfNew]
    simp only [hfree, and_true, hlivefd]
    by_cases hfd' : fd = fd'
    · subst hfd'
      rw [if_pos rfl]
      constructor
      · intro hq
        exact ⟨s.bufferevents.next, (Option.some.inj hq).symm, .inl ⟨rfl, rfl⟩⟩
      · rintro ⟨p, rfl, ⟨rfl, -⟩ | ⟨hp, hf⟩⟩
        · rfl
        · exact absurd (ho.fdsOpen p fd hp hf) hopen
    · rw [if_neg hfd', ho.tcpMap]
      constructor
      · rintro ⟨p, rfl, hp⟩
        exact ⟨p, rfl, .inr hp⟩
      · rintro ⟨p, rfl, ⟨-, hf⟩ | hp⟩
        · exact absurd hf hfd'
        · exact ⟨p, rfl, hp⟩
  · intro p fd' hp hf
    rw [hfds, Finset.mem_insert]
    rcases (hlivefd p fd').mp ⟨hp, hf⟩ with ⟨-, rfl⟩ | ⟨hl, hf⟩
    · exact .inl rfl
    · exact .inr (ho.fdsOpen p fd' hl hf)
  · intro connId q hq
    rw [hcon, conMap_get_insertIfNew] at hq
    by_cases hnew : connIdOf s.bufferevents.next = connId ∧
        s.m_mapConHandlers[connIdOf s.bufferevents.next]? = none
    · rw [if_pos hnew] at hq
      exact ⟨_, (Option.some.inj hq).symm, (hlive _).mpr (.inl rfl), hnew.1⟩
    · rw [if_neg hnew] at hq
      obtain ⟨p, hp, hl, hc⟩ := ho.conMap connId q hq
      exact ⟨p, hp, (hlive p).mpr (.inr hl), hc⟩
  · intro hfew p hp
    have hn : s.bufferevents.next + 1 < 2 ^ 64 := by
      rw [Few, hconns, List.length_append, ho.length_connections] at hfew
      exact hfew
    rw [hcon, conMap_get_insertIfNew]
    by_cases hN : p = s.bufferevents.next
    · rw [hN, if_pos ⟨rfl, ho.conMap_next hn⟩]
    · have hl := ((hlive p).mp hp).resolve_left hN
      have hlt := hl.lt_next ho
      rw [if_neg fun h => hN (connIdOf_inj hn (Nat.lt_succ_self _) (by omega) h.1).symm]
      exact ho.conMap_live (by rw [Few, ho.length_connections]; omega) p hl

end Accept

/-! ## Erasing -/

theorem tcpMap_get_erase (m : Std.TreeMap ℤ (Option ℕ)) (fd fd' : ℤ) :
    (m.erase fd)[fd']? = if fd = fd' then none else m[fd']? := by
  rw [Std.TreeMap.getElem?_erase]
  simp only [Std.LawfulEqCmp.compare_eq_iff_eq]

theorem conMap_get_erase (m : Std.TreeMap UInt64 (Option ℕ)) (c c' : UInt64) :
    (m.erase c)[c']? = if c = c' then none else m[c']? := by
  rw [Std.TreeMap.getElem?_erase]
  simp only [Std.LawfulEqCmp.compare_eq_iff_eq]

/-- The state without the socket `fd`. -/
def closed (s : NetWorkSystem) (fd : ℤ) : NetWorkSystem :=
  { s with openFds := s.openFds.erase fd }

/-- The state without the handler at `p`, its entries, and its socket `fd`. -/
def erased (s : NetWorkSystem) (fd : ℤ) (p : ℕ) : NetWorkSystem :=
  { s with
    openFds := s.openFds.erase fd
    m_mapTcpHandlers := s.m_mapTcpHandlers.erase fd
    m_mapConHandlers := s.m_mapConHandlers.erase (connIdOf p)
    tcpHandlers := s.tcpHandlers.free p }

/-- Every handler is that of its connection. -/
def Connected (s : NetWorkSystem) : Prop :=
  ∀ p h, s.tcpHandlers.get? p = some h → SameConn (.new (connIdOf p) (some p)) h

/-- `eraseConnection` closes the socket of the bufferevent, and erases the one connection there is
under its descriptor. -/
theorem eraseConnection_eq (ho : Objects s) (hc : Connected s) {b : ℕ} {bev : Bufferevent}
    (hb : s.bufferevents.get? b = some bev) :
    (s.m_mapTcpHandlers[bev.fd]? = none ∧ s.eraseConnection b = .ok (s.closed bev.fd)) ∨
      ∃ p, s.m_mapTcpHandlers[bev.fd]? = some (some p) ∧ s.Live p ∧ s.fdOf p = some bev.fd ∧
        s.eraseConnection b = .ok (s.erased bev.fd p) := by
  simp only [eraseConnection, deref_ok hb, bind, Except.bind]
  cases hq : s.m_mapTcpHandlers[bev.fd]? with
  | none => exact .inl ⟨rfl, rfl⟩
  | some q =>
    obtain ⟨p, rfl, hp, hf⟩ := (ho.tcpMap _ _).mp hq
    obtain ⟨h, hh⟩ := Option.isSome_iff_exists.mp hp
    obtain ⟨hid, hbev⟩ := hc p h hh
    refine .inr ⟨p, rfl, hp, hf, ?_⟩
    have hne : h.m_pBufferevent ≠ none := by
      rw [hbev]
      exact fun hnone => by cases hnone
    simp only [deref_ok hh, deleteTcpHandler, if_neg hne, hid]
    rfl

theorem Objects.bufferevent (ho : Objects s) {b : ℕ} (hb : b < s.bufferevents.next) :
    ∃ bev, s.bufferevents.get? b = some bev := by
  obtain ⟨fd, hfd⟩ := Option.isSome_iff_exists.mp (ho.created b hb)
  obtain ⟨bev, hbev, -⟩ := Option.map_eq_some_iff.mp hfd
  exact ⟨bev, hbev⟩

theorem Objects.closed (ho : Objects s) {fd : ℤ} (hfree : s.m_mapTcpHandlers[fd]? = none) :
    Objects (s.closed fd) where
  connections := ho.connections
  counter := ho.counter
  next := ho.next
  created := ho.created
  tcpMap := ho.tcpMap
  fdsOpen p fd' hp hf := by
    refine Finset.mem_erase.mpr ⟨?_, ho.fdsOpen p fd' hp hf⟩
    rintro rfl
    rw [(ho.tcpMap fd' (some p)).mpr ⟨p, rfl, hp, hf⟩] at hfree
    cases hfree
  conMap := ho.conMap
  conMap_live := ho.conMap_live

theorem live_erased (fd : ℤ) (p q : ℕ) : (s.erased fd p).Live q ↔ q ≠ p ∧ s.Live q := by
  rw [Live, erased, Heap.get?_free]
  by_cases hq : q = p
  · simp [hq]
  · simp [hq, Live]

/-- No other handler is under the descriptor, or under the id. -/
theorem Objects.erased (ho : Objects s) {fd : ℤ} {p : ℕ}
    (hp : s.m_mapTcpHandlers[fd]? = some (some p)) : Objects (s.erased fd p) := by
  have hsame : ∀ {q}, s.Live q → s.fdOf q = some fd → q = p := by
    intro q hq hf
    rw [(ho.tcpMap fd (some q)).mpr ⟨q, rfl, hq, hf⟩] at hp
    exact Option.some.inj (Option.some.inj hp)
  obtain ⟨p', hp', -, hfp⟩ := (ho.tcpMap _ _).mp hp
  obtain rfl : p = p' := Option.some.inj hp'
  have hlive := live_erased (s := s) fd p
  refine ⟨ho.connections, ho.counter, (Heap.next_free _ _).trans ho.next, ho.created, ?_, ?_, ?_,
    ?_⟩
  · intro fd' q
    show (s.m_mapTcpHandlers.erase fd)[fd']? = some q ↔
      ∃ r, q = some r ∧ (s.erased fd p).Live r ∧ s.fdOf r = some fd'
    rw [tcpMap_get_erase]
    simp only [hlive]
    by_cases hfd : fd = fd'
    · subst hfd
      rw [if_pos rfl]
      constructor
      · intro h
        cases h
      · rintro ⟨r, -, ⟨hr, hl⟩, hf⟩
        exact absurd (hsame hl hf) hr
    · rw [if_neg hfd, ho.tcpMap]
      constructor
      · rintro ⟨r, rfl, hl, hf⟩
        refine ⟨r, rfl, ⟨?_, hl⟩, hf⟩
        rintro rfl
        exact hfd (Option.some.inj (hfp.symm.trans hf))
      · rintro ⟨r, rfl, ⟨-, hl⟩, hf⟩
        exact ⟨r, rfl, hl, hf⟩
  · intro q fd' hq hf
    obtain ⟨hne, hl⟩ := (hlive q).mp hq
    refine Finset.mem_erase.mpr ⟨?_, ho.fdsOpen q fd' hl hf⟩
    rintro rfl
    exact hne (hsame hl hf)
  · intro connId q hq
    change (s.m_mapConHandlers.erase (connIdOf p))[connId]? = some q at hq
    rw [conMap_get_erase] at hq
    by_cases hid : connIdOf p = connId
    · rw [if_pos hid] at hq
      cases hq
    · rw [if_neg hid] at hq
      obtain ⟨r, rfl, hl, hr⟩ := ho.conMap connId q hq
      refine ⟨r, rfl, (hlive r).mpr ⟨?_, hl⟩, hr⟩
      rintro rfl
      exact hid hr
  · intro hfew q hq
    obtain ⟨hne, hl⟩ := (hlive q).mp hq
    have hn : s.bufferevents.next < 2 ^ 64 := ho.length_connections ▸ hfew
    obtain ⟨p', hp', hlp, -⟩ := (ho.tcpMap _ _).mp hp
    obtain rfl : p = p' := Option.some.inj hp'
    show (s.m_mapConHandlers.erase (connIdOf p))[connIdOf q]? = some (some q)
    rw [conMap_get_erase, if_neg fun h =>
      hne (connIdOf_inj hn (hlp.lt_next ho) (hl.lt_next ho) h).symm]
    exact ho.conMap_live hfew q hl

/-! ## Reading and pushing -/

/-- The state after the handler at `p` has read. -/
def afterRead (s : NetWorkSystem) (p : ℕ) (own : Bufferevent) (r : ReadResult) : NetWorkSystem :=
  { s with
    tcpHandlers := s.tcpHandlers.set p r.handler
    bufferevents := s.bufferevents.set p { own with input := r.inputBuf } }

/-- The state after worker `k` has become `worker`, with `new` in its stream, and the handler at
`p` has become `tcpHandler`. -/
def afterPush (s : NetWorkSystem) (k : Fin 2) (p : ℕ) (worker : NetWorker)
    (tcpHandler : TcpHandler) (new : List ConMsgNode) : NetWorkSystem :=
  { s with
    m_pNetWorkers := Function.update s.m_pNetWorkers k worker
    tcpHandlers := s.tcpHandlers.set p tcpHandler
    inserted := Function.update s.inserted k (s.inserted k ++ new) }

variable {L : IntLayout}

/-- The handler that is found under the descriptor reads from its own bufferevent. That is not
the one the callback is for when the descriptor has been handed out again. -/
theorem dealReadEvent_eq (ho : Objects s) (hc : Connected s) {b : ℕ} {bev : Bufferevent}
    (hb : s.bufferevents.get? b = some bev) :
    (s.m_mapTcpHandlers[bev.fd]? = none ∧ s.dealReadEvent L b = .ok s) ∨
      ∃ p h own, s.m_mapTcpHandlers[bev.fd]? = some (some p) ∧ s.tcpHandlers.get? p = some h ∧
        s.bufferevents.get? p = some own ∧ own.fd = bev.fd ∧
        s.dealReadEvent L b = (do
          let r ← h.dealReadEvent L mallocOk 1 own.input
          if r.success = 0 then (s.afterRead p own r).eraseConnection b
          else (s.afterRead p own r).pushToWorker p r.handler) := by
  simp only [dealReadEvent, deref_ok hb, bind, Except.bind]
  cases hq : s.m_mapTcpHandlers[bev.fd]? with
  | none => exact .inl ⟨rfl, rfl⟩
  | some q =>
    obtain ⟨p, rfl, hp, hf⟩ := (ho.tcpMap _ _).mp hq
    obtain ⟨h, hh⟩ := Option.isSome_iff_exists.mp hp
    obtain ⟨own, hown, hfd⟩ := Option.map_eq_some_iff.mp hf
    have hbev : h.m_pBufferevent = some p := (hc p h hh).2
    refine .inr ⟨p, h, own, rfl, hh, hown, hfd, ?_⟩
    simp only [deref_ok hh, hbev, deref_ok hown]
    rfl

theorem pushToWorker_eq {p : ℕ} {h h' : TcpHandler} {worker : NetWorker}
    (hpush : (s.m_pNetWorkers (shard h.m_nConnId)).pushNodeInStream mallocOk h =
      .ok (worker, h')) :
    s.pushToWorker p h = .ok (s.afterPush (shard h.m_nConnId) p worker h'
      (worker.m_msgInStream.m_listConMsg.drop
        (s.m_pNetWorkers (shard h.m_nConnId)).m_msgInStream.m_listConMsg.length)) := by
  simp only [pushToWorker, hpush, bind, Except.bind]
  rfl

theorem pushToWorker_inv {p : ℕ} {h : TcpHandler} (hrun : s.pushToWorker p h = .ok s') :
    ∃ worker h', (s.m_pNetWorkers (shard h.m_nConnId)).pushNodeInStream mallocOk h =
        .ok (worker, h') ∧
      s' = s.afterPush (shard h.m_nConnId) p worker h' (worker.m_msgInStream.m_listConMsg.drop
        (s.m_pNetWorkers (shard h.m_nConnId)).m_msgInStream.m_listConMsg.length) := by
  obtain ⟨⟨worker, h'⟩, hpush, hend⟩ := Run.of_bind hrun
  exact ⟨worker, h', hpush, (Except.ok.inj hend).symm⟩

/-! ## Handling -/

/-- The state after a step of worker `k`'s thread, before the message is handled. -/
def stepped (s : NetWorkSystem) (k : Fin 2) (worker : NetWorker) (out : Option ConMsgNode) :
    NetWorkSystem :=
  { s with
    m_pNetWorkers := Function.update s.m_pNetWorkers k worker
    handled := Function.update s.handled k (s.handled k ++ out.toList) }

variable {P : Protobuf} {t : MsgHandler} {k : Fin 2} {written : Bool}

theorem threadStep_some {worker : NetWorker} {msgNode : ConMsgNode}
    (hthread : (s.m_pNetWorkers k).threadStep mallocOk = .ok (worker, some msgNode)) :
    s.threadStep L P t k written =
      (t.handleMsg (call L P written) msgNode (s.stepped k worker (some msgNode))).map
        Prod.fst := by
  rw [threadStep, hthread]
  show (do
    let r ← t.handleMsg (call L P written) msgNode (s.stepped k worker (some msgNode))
    pure r.1) = _
  cases t.handleMsg (call L P written) msgNode (s.stepped k worker (some msgNode)) <;> rfl

theorem threadStep_inv (hrun : s.threadStep L P t k written = .ok s') :
    ∃ worker out, (s.m_pNetWorkers k).threadStep mallocOk = .ok (worker, out) ∧
      (s' = s.stepped k worker out ∨ ∃ msgNode, out = some msgNode ∧
        handleTestMsg L P written msgNode (s.stepped k worker out) = .ok s') := by
  obtain ⟨⟨worker, out⟩, hthread, hend⟩ := Run.of_bind hrun
  refine ⟨worker, out, hthread, ?_⟩
  cases out with
  | none =>
    obtain rfl := Except.ok.inj hend
    left
    simp only [stepped, Option.toList_none, List.append_nil, Function.update_eq_self]
  | some msgNode =>
    obtain ⟨⟨s₁, res⟩, hhandle, hend⟩ := Run.of_bind hend
    obtain rfl := Except.ok.inj hend
    rcases MsgHandler.handleMsg_inv hhandle with h | ⟨func, hcall⟩
    · exact .inl h
    · cases func
      exact .inr ⟨msgNode, rfl, hcall⟩

/-- What `handleTestMsg` answers a message with. -/
def Replies (P : Protobuf) (msgNode : ConMsgNode) (reply : Message) : Prop :=
  reply.1 = msgNode.mMsgNode.getMsgId ∧ ∃ buf test, msgNode.mMsgNode.getMsgData = .ok buf ∧
    P.parseFromString buf = some test ∧ reply.2 = P.serializeToString test

/-- `handleTestMsg` writes nothing, or one reply, to the bufferevent of the handler that is
registered under the message's connection. -/
theorem handleTestMsg_inv {msgNode : ConMsgNode}
    (hrun : handleTestMsg L P written msgNode s = .ok s') :
    s' = s ∨ ∃ p h b bev reply, s.m_mapConHandlers[msgNode.mConnId]? = some (some p) ∧
      s.tcpHandlers.get? p = some h ∧ h.m_pBufferevent = some b ∧
      s.bufferevents.get? b = some bev ∧ Replies P msgNode reply ∧
      s' = { s with bufferevents := s.bufferevents.set b { bev with
        output := TcpHandler.dealWriteEvent L written bev.output reply.1 reply.2 } } := by
  obtain ⟨buf, hbuf, hrun⟩ := Run.of_bind hrun
  simp only at hrun
  split at hrun
  · exact .inl (Except.ok.inj hrun).symm
  · rename_i test htest
    split at hrun
    · exact .inl (Except.ok.inj hrun).symm
    · rename_i p hp
      obtain ⟨⟨p', h⟩, hh, hwrite⟩ := Run.of_bind hrun
      obtain ⟨⟨b, bev⟩, hb, hend⟩ := Run.of_bind hwrite
      obtain ⟨hpp, hget⟩ := deref_inv hh
      obtain rfl := Option.some.inj hpp
      obtain ⟨hbev, hget'⟩ := deref_inv hb
      refine .inr ⟨p, h, b, bev, (msgNode.mMsgNode.getMsgId, P.serializeToString test),
        Option.join_eq_some_iff.mp hp, hget, hbev, hget', ⟨rfl, buf, test, hbuf, htest, rfl⟩, ?_⟩
      exact (Except.ok.inj hend).symm

/-! ## Events -/

/-- What an event can do. Nothing happens when the event has no object, or `accept` fails. -/
inductive Effect (L : IntLayout) (P : Protobuf) (t : MsgHandler) (s : NetWorkSystem) :
    Event → NetWorkSystem → Prop
  | idle {e : Event} : Effect L P t s e s
  | accept {fd : ℤ} (hopen : fd ∉ s.openFds) (hfd : fd ≠ -1) :
    Effect L P t s (.accept fd) (s.listener_read_cb fd)
  | arrive {b : ℕ} {bev : Bufferevent} {bytes : List UInt8}
    (hb : s.bufferevents.get? b = some bev) :
    Effect L P t s (.arrive b bytes)
      { s with
        bufferevents := s.bufferevents.set b
          { bev with input := bev.input ++ bytes, arrived := bev.arrived ++ bytes } }
  | read {b : ℕ} {bev : Bufferevent} {s' : NetWorkSystem}
    (hb : s.bufferevents.get? b = some bev) (hrun : s.dealReadEvent L b = .ok s') :
    Effect L P t s (.read b) s'
  | error {b : ℕ} {bev : Bufferevent} {s' : NetWorkSystem}
    (hb : s.bufferevents.get? b = some bev) (hrun : s.eraseConnection b = .ok s') :
    Effect L P t s (.error b) s'
  | thread {k : Fin 2} {written : Bool} {s' : NetWorkSystem}
    (hrun : s.threadStep L P t k written = .ok s') : Effect L P t s (.thread k written) s'

theorem step_effect (ho : Objects s) {e : Event} (hstep : step L P t s e = .ok s') :
    Effect L P t s e s' := by
  cases e with
  | accept fd =>
    obtain rfl := Except.ok.inj hstep
    by_cases hopen : fd ∈ s.openFds
    · rw [if_pos hopen]
      exact .idle
    · rw [if_neg hopen]
      by_cases hfd : fd = -1
      · rw [listener_read_cb, if_pos hfd]
        exact .idle
      · exact .accept hopen hfd
  | arrive b bytes =>
    obtain rfl := Except.ok.inj hstep
    rw [NetWorkSystem.arrive]
    cases hb : s.bufferevents.get? b with
    | none => exact .idle
    | some bev => exact .arrive hb
  | read b =>
    rw [step] at hstep
    by_cases hlt : b < s.bufferevents.next
    · rw [if_pos hlt] at hstep
      obtain ⟨bev, hb⟩ := ho.bufferevent hlt
      exact .read hb hstep
    · rw [if_neg hlt] at hstep
      obtain rfl := Except.ok.inj hstep
      exact .idle
  | error b =>
    rw [step] at hstep
    by_cases hlt : b < s.bufferevents.next
    · rw [if_pos hlt] at hstep
      obtain ⟨bev, hb⟩ := ho.bufferevent hlt
      exact .error hb hstep
    · rw [if_neg hlt] at hstep
      obtain rfl := Except.ok.inj hstep
      exact .idle
  | thread k written => exact .thread hstep

end NetWorkSystem

end SmartServer
