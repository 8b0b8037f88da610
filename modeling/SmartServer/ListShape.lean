import SmartServer.Connection

/-!
# The shape of a handler's list

`pushNodeInStream` takes nodes off the front of a handler's list and stops at the first one that is
not received. That it gets all received nodes depends on a shape of the list that the read loop
builds over many events: only the last node may be unfinished, and it is the one the cursor is on.

The two halves of a connection's event, the read and the push, are taken as calls of their own
here, in any order (`dealReadEvent_eq`).

**Theorem (`drains_iff`).** Between any two calls the list has this shape, and what has been pushed
and then what is in the list are the messages of the stream. Every push of a run leaves nothing but
the unfinished node if and only if no push finds `2 ^ 32` nodes or more: the number of nodes is cut
down to a `UInt32`, and of `2 ^ 32` nodes none is taken (`push_truncated`).
-/

namespace SmartServer

open Framing TcpHandler

/-! ## The two halves of an event -/

namespace Connection

variable {L : IntLayout} {connId : UInt64} {bev : Option ℕ}

/-- The read. A connection whose handler has refused a head is erased. -/
def read (L : IntLayout) (malloc : ℕ → Malloc) (c : Connection) (bytes : List UInt8) :
    Exec Connection :=
  match c.tcpHandler with
  | none => .ok { c with inputBuf := c.inputBuf ++ bytes }
  | some tcpHandler => do
    let r ← tcpHandler.dealReadEvent L malloc 1 (c.inputBuf ++ bytes)
    pure { c with
      tcpHandler := if r.success = 0 then none else some r.handler
      inputBuf := r.inputBuf }

/-- The push. -/
def push (malloc : ℕ → Malloc) (c : Connection) : Exec Connection :=
  match c.tcpHandler with
  | none => .ok c
  | some tcpHandler => do
    let (worker, tcpHandler) ← c.worker.pushNodeInStream malloc tcpHandler
    pure { c with tcpHandler := some tcpHandler, worker }

/-- An event of a connection is a read and then a push. -/
theorem dealReadEvent_eq (mallocNew mallocCopy : ℕ → Malloc) (c : Connection)
    (bytes : List UInt8) :
    c.dealReadEvent L mallocNew mallocCopy bytes =
      c.read L mallocNew bytes >>= push mallocCopy := by
  cases hc : c.tcpHandler with
  | none => simp [dealReadEvent, read, push, hc, bind, Except.bind]
  | some h =>
    simp only [dealReadEvent, read, hc]
    cases hr : h.dealReadEvent L mallocNew 1 (c.inputBuf ++ bytes) with
    | error f => rfl
    | ok r =>
      by_cases hzero : r.success = 0
      · simp [bind, Except.bind, pure, Except.pure, hzero, push]
      · simp [bind, Except.bind, pure, Except.pure, hzero, push]

inductive Call
  | read (bytes : List UInt8) (malloc : ℕ → Malloc)
  | push (malloc : ℕ → Malloc)

namespace Call

def malloc : Call → ℕ → Malloc
  | .read _ malloc => malloc
  | .push malloc => malloc

/-- The bytes a call brings. -/
def bytes : Call → List UInt8
  | .read bytes _ => bytes
  | .push _ => []

end Call

def call (L : IntLayout) (c : Connection) : Call → Exec Connection
  | .read bytes malloc => c.read L malloc bytes
  | .push malloc => c.push malloc

def calls (L : IntLayout) (connId : UInt64) (bev : Option ℕ) (cs : List Call) : Exec Connection :=
  cs.foldlM (call L) (accept connId bev)

/-- The bytes that have arrived. -/
def arrived (cs : List Call) : List UInt8 := cs.flatMap Call.bytes

theorem arrived_concat (cs : List Call) (x : Call) :
    arrived (cs ++ [x]) = arrived cs ++ x.bytes := by
  simp [arrived]

/-- The events of a connection are runs of calls. -/
theorem run_eq_calls (events : List (List UInt8)) :
    run L connId bev events =
      calls L connId bev (events.flatMap fun bytes => [.read bytes mallocOk, .push mallocOk]) := by
  rw [run, calls]
  generalize accept connId bev = c
  induction events generalizing c with
  | nil => rfl
  | cons bytes events ih =>
    rw [List.foldlM_cons, List.flatMap_cons, List.foldlM_append, dealReadEvent_eq]
    simp only [List.foldlM_cons, List.foldlM_nil, call, bind_pure]
    exact bind_congr ih

end Connection

/-! ## The shape -/

namespace TcpHandler

variable {L : IntLayout} {h h₀ : TcpHandler} {ms : List Message}

/-- No node has received too much, only the last one may be unfinished, and the cursor is on the
unfinished node. -/
structure ListShape (h : TcpHandler) : Prop where
  offset : ∀ n ∈ h.m_listMsgs.values, n.m_nOffSet ≤ n.m_nMsgLen
  received : ∀ n ∈ h.m_listMsgs.values.dropLast, n.isReceived = true
  unfinished : ∀ p n, (p, n) ∈ h.m_listMsgs.cells →
    (n.isReceived = false ↔ h.m_pLastNode = some p)

theorem not_isReceived_iff {n : MsgNode} : n.isReceived = false ↔ n.m_nOffSet < n.m_nMsgLen := by
  rw [← Bool.not_eq_true, MsgNode.isReceived_iff, UInt32.not_le]

/-- A node that looks like a message has received exactly its length. -/
theorem offset_eq_of_mem {cells : List (ℕ × MsgNode)} (hv : cellViews cells = ms.map messageView)
    {x : ℕ × MsgNode} (hx : x ∈ cells) : x.2.m_nOffSet = x.2.m_nMsgLen := by
  have hview : x.2.view ∈ ms.map messageView := by
    rw [← hv, cellViews]
    exact List.mem_map_of_mem hx
  obtain ⟨m, -, hm⟩ := List.mem_map.mp hview
  simp only [messageView, MsgNode.view, Prod.mk.injEq] at hm
  rw [← hm.2.1, ← hm.2.2.1]

/-- All nodes are messages, and the cursor is not on any of them. -/
theorem listShape_of_views (hv : h.views = ms.map messageView) (hr : h.Receiving) :
    ListShape h := by
  have hoff : ∀ x ∈ h.m_listMsgs.cells, x.2.m_nOffSet = x.2.m_nMsgLen :=
    fun x hx => offset_eq_of_mem ((views_of_cells rfl).symm.trans hv) hx
  have hval : ∀ n ∈ h.m_listMsgs.values, n.m_nOffSet = n.m_nMsgLen := by
    intro n hn
    obtain ⟨x, hx, rfl⟩ := List.mem_map.mp hn
    exact hoff x hx
  refine ⟨?_, ?_, ?_⟩
  · intro n hn
    rw [hval n hn]
    exact UInt32.le_refl _
  · intro n hn
    rw [MsgNode.isReceived_iff, hval n (List.mem_of_mem_dropLast hn)]
    exact UInt32.le_refl _
  · intro p n hn
    rw [not_isReceived_iff, hoff _ hn]
    refine iff_of_false (UInt32.lt_irrefl _) ?_
    intro hp
    obtain ⟨n', hn', hlt⟩ := hr p hp
    rw [hoff _ (OwnedList.mem_of_get? hn')] at hlt
    exact UInt32.lt_irrefl _ hlt

/-- The last node is unfinished, and the cursor is on it. -/
theorem listShape_of_filling {init : List (ℕ × MsgNode)} {p : ℕ} {n : MsgNode} {blk : List UInt8}
    (hf : h.Filling init p n blk) (hv : cellViews init = ms.map messageView)
    (hlt : n.m_nOffSet < n.m_nMsgLen) : ListShape h := by
  have hvalues : h.m_listMsgs.values = init.map Prod.snd ++ [n] := by
    rw [OwnedList.values, hf.cells, List.map_append]
    rfl
  have hinit : ∀ n' ∈ init.map Prod.snd, n'.m_nOffSet = n'.m_nMsgLen := by
    intro n' hn'
    obtain ⟨x, hx, rfl⟩ := List.mem_map.mp hn'
    exact offset_eq_of_mem hv hx
  refine ⟨?_, ?_, ?_⟩
  · intro n' hn'
    rw [hvalues, List.mem_append, List.mem_singleton] at hn'
    rcases hn' with hn' | rfl
    · rw [hinit n' hn']
      exact UInt32.le_refl _
    · exact UInt32.le_of_lt hlt
  · intro n' hn'
    rw [hvalues, List.dropLast_concat] at hn'
    rw [MsgNode.isReceived_iff, hinit n' hn']
    exact UInt32.le_refl _
  · intro q n' hn'
    rw [not_isReceived_iff, hf.cursor]
    rw [hf.cells, List.mem_append, List.mem_singleton] at hn'
    rcases hn' with hn' | hn'
    · rw [offset_eq_of_mem hv hn']
      refine iff_of_false (UInt32.lt_irrefl _) ?_
      intro hq
      obtain rfl := Option.some.inj hq
      exact OwnedList.notMem_init hf.cells (List.mem_map_of_mem hn')
    · obtain ⟨rfl, rfl⟩ := Prod.mk.inj hn'
      exact iff_of_true hlt rfl

/-- **The shape of a list that stands somewhere in its stream.** -/
theorem Tracks.listShape {ph : Phase UInt8 UInt32} (ht : Tracks h (ms.map messageView) ph)
    (hr : h.Receiving) : ListShape h := by
  generalize hvs : ms.map messageView = vs at ht
  cases ht with
  | idle _ => exact listShape_of_views hvs.symm hr
  | busy hf hlt _ => exact listShape_of_filling hf hvs.symm hlt

theorem Stands.listShape {stream inputBuf : List UInt8} {inserted : List Message}
    (hs : Stands L h₀ stream inserted h inputBuf) : ListShape h := by
  obtain ⟨ms, -, ho⟩ := hs.follows.read hs.receiving.cursorLive
  obtain ⟨ph, ht⟩ := ho.tracks one_ne_zero
  exact ht.listShape hs.receiving

/-- The shape of the list after a read, whether or not a head was refused. -/
theorem Read.listShape {stream : List UInt8} {inserted : List Message} {r : ReadResult}
    (hread : Read L h₀ stream inserted r) (hc : CursorPost r)
    (hlen : ∀ x ∈ announcedLengths L stream, 1 ≤ x.2 ∧ x.2 < 2 ^ 31) : ListShape r.handler := by
  by_cases hzero : r.success = 0
  · obtain ⟨ms, hms, ho⟩ := hread
    have href := ho.refused_iff.mp hzero
    have hviews := ho.views_eq
    rw [href, partViews, List.append_nil] at hviews
    refine listShape_of_views hviews ?_
    rcases hc with hr | ⟨-, init, p, n, hcells, -, hempty⟩
    · exact hr
    · -- a node without body would be an empty message
      exfalso
      have hlast : n.view ∈ ms.map messageView := by
        rw [← hviews, views_of_cells hcells]
        simp [cellViews]
      obtain ⟨m, hm, hview⟩ := List.mem_map.mp hlast
      have hmsg : m ∈ (decode L stream).1 := by
        rw [hms]
        exact List.mem_append_right _ hm
      have hpos : 1 ≤ m.2.length ∧ m.2.length < 2 ^ 31 :=
        hlen (m.1, m.2.length) (List.mem_append_left _ (List.mem_map_of_mem hmsg))
      have hzero : UInt32.ofNat m.2.length = 0 := by
        simp only [messageView, MsgNode.view, Prod.mk.injEq] at hview
        exact hview.2.1.trans hempty
      have hnat : m.2.length = 0 := by
        rw [← UInt32.toNat_ofNat_of_lt' (hpos.2.trans (by decide)), hzero]
        rfl
      omega
  · exact Stands.listShape ⟨hread.follows hzero,
      hread.receiving hc hzero (not_endsEmpty fun x hx => (hlen x hx).1)⟩

/-! ## What a push leaves -/

/-- All nodes are received, but for the last one. -/
theorem ListShape.split (hs : ListShape h) :
    ∃ done part, h.m_listMsgs.values = done ++ part ∧ (∀ n ∈ done, n.isReceived = true) ∧
      (∀ n ∈ part, n.isReceived = false) ∧ part.length ≤ 1 := by
  have hrec := hs.received
  rcases List.eq_nil_or_concat h.m_listMsgs.values with hnil | ⟨done, n, hvals⟩
  · exact ⟨[], [], hnil, by simp, by simp, by simp⟩
  · rw [hvals, List.concat_eq_append, List.dropLast_concat] at hrec
    rw [hvals, List.concat_eq_append]
    cases hn : n.isReceived with
    | true =>
      refine ⟨done ++ [n], [], by simp, ?_, by simp, by simp⟩
      intro n' hn'
      rw [List.mem_append, List.mem_singleton] at hn'
      rcases hn' with hn' | rfl
      · exact hrec n' hn'
      · exact hn
    | false => exact ⟨done, [n], rfl, hrec, by simpa using hn, le_rfl⟩

/-- The cells of the unfinished nodes are those behind the received ones. -/
theorem filter_unreceived {done part : List MsgNode} (hvals : h.m_listMsgs.values = done ++ part)
    (hdone : ∀ n ∈ done, n.isReceived = true) (hpart : ∀ n ∈ part, n.isReceived = false) :
    h.m_listMsgs.cells.filter (fun x => !x.2.isReceived) =
      h.m_listMsgs.cells.drop done.length := by
  obtain ⟨front, back, hcells, rfl, rfl⟩ := List.map_eq_append_iff.mp hvals
  have hfront : front.filter (fun x => !x.2.isReceived) = [] := by
    rw [List.filter_eq_nil_iff]
    intro x hx
    rw [hdone _ (List.mem_map_of_mem hx)]
    decide
  have hback : back.filter (fun x => !x.2.isReceived) = back := by
    rw [List.filter_eq_self]
    intro x hx
    rw [hpart _ (List.mem_map_of_mem hx)]
    rfl
  rw [hcells, List.filter_append, hfront, hback, List.length_map, List.drop_left]
  rfl

theorem filter_received {done part : List MsgNode} (hdone : ∀ n ∈ done, n.isReceived = true)
    (hpart : ∀ n ∈ part, n.isReceived = false) :
    (done ++ part).filter MsgNode.isReceived = done := by
  rw [List.filter_append, List.filter_eq_self.mpr hdone, List.filter_eq_nil_iff.mpr,
    List.append_nil]
  intro n hn
  rw [hpart n hn]
  decide

/-- The received nodes of the list are the messages that have not been inserted. -/
theorem Shows.received {stream : List UInt8} {inserted : List Message}
    (hs : Shows L stream inserted h ms) :
    (h.m_listMsgs.values.filter MsgNode.isReceived).map MsgNode.message = ms := by
  obtain ⟨done, part, hvals, hdone, hpart⟩ := settled_of_views (L := L) hs.views
    (fun m hm => ((valid_decode L stream).1 m (by rw [hs.frames]; simp [hm])).2)
    (fun x hx => ((valid_decode L stream).2 x hx).2) (wf_decode L stream)
  rw [hvals, filter_received hdone.received hpart, hdone.message]

/-- Nothing but the unfinished node is left of the list, and the cursor is where it was. -/
structure Emptied (h h' : TcpHandler) : Prop where
  cells : h'.m_listMsgs.cells = h.m_listMsgs.cells.filter fun x => !x.2.isReceived
  atMostOne : h'.m_listMsgs.cells.length ≤ 1
  lastNode : h'.m_pLastNode = h.m_pLastNode

/-- What a push takes are the first of the received nodes. -/
theorem ListShape.drained_le (hs : ListShape h) :
    h.drained <+: h.m_listMsgs.values.filter MsgNode.isReceived := by
  obtain ⟨done, part, hvals, hdone, hpart, -⟩ := hs.split
  rw [TcpHandler.drained, hvals, drained_settled hdone hpart, filter_received hdone hpart]
  exact List.take_prefix _ _

/-- **When a push takes all it should.** -/
theorem ListShape.emptied_iff (hs : ListShape h) {h' : TcpHandler}
    (hd : NetWorker.Drained h h' h.drained.length) :
    Emptied h h' ∧ h.drained = h.m_listMsgs.values.filter MsgNode.isReceived ↔
      h.m_listMsgs.values.length < 2 ^ 32 := by
  obtain ⟨done, part, hvals, hdone, hpart, hone⟩ := hs.split
  have hfilter := filter_unreceived hvals hdone hpart
  have hdrained : h.drained = done.take h.pushCount := by
    rw [TcpHandler.drained, ← pushCount, hvals, drained_settled hdone hpart]
  have hcount : h.pushCount = h.m_listMsgs.values.length % 2 ^ 32 := UInt32.toNat_ofNat'
  have hlen : h.m_listMsgs.values.length = done.length + part.length := by
    rw [hvals, List.length_append]
  have hreceived : h.m_listMsgs.values.filter MsgNode.isReceived = done := by
    rw [hvals, filter_received hdone hpart]
  rw [hreceived]
  constructor
  · rintro ⟨-, hall⟩
    rw [hdrained] at hall
    have hle := congrArg List.length hall
    rw [List.length_take] at hle
    omega
  · intro hfew
    have hall : h.drained = done := by
      rw [hdrained, hcount]
      exact List.take_of_length_le (by omega)
    have hcells : h'.m_listMsgs.cells = h.m_listMsgs.cells.drop done.length := by
      rw [hd.cells, hall]
    refine ⟨⟨hcells.trans hfilter.symm, ?_, hd.lastNode⟩, hall⟩
    have hcl : h.m_listMsgs.cells.length = done.length + part.length := by
      rw [← hlen, OwnedList.values, List.length_map]
    rw [hcells, List.length_drop]
    omega

end TcpHandler

/-! ## Runs -/

namespace Connection

variable {L : IntLayout} {connId : UInt64} {bev : Option ℕ} {c : Connection}
  {stream : List UInt8}

/-- The handler, if the connection is not erased, stands where its bytes take it, with the messages
inserted that are in the worker's stream. -/
structure StandsAt (L : IntLayout) (connId : UInt64) (bev : Option ℕ) (stream : List UInt8)
    (c : Connection) : Prop where
  lock : c.worker.m_mutexLock = true
  stands : ∀ h, c.tcpHandler = some h →
    ∃ ins, Stands L (.new connId bev) stream ins h c.inputBuf ∧
      c.worker.m_msgInStream.tagged MsgNode.message = ins.map fun m => (connId, m)

theorem StandsAt.read (hs : StandsAt L connId bev stream c) (bytes : List UInt8)
    (hlen : ∀ x ∈ announcedLengths L (stream ++ bytes), 1 ≤ x.2 ∧ x.2 < 2 ^ 31) :
    ∃ c', c.read L mallocOk bytes = .ok c' ∧ StandsAt L connId bev (stream ++ bytes) c' := by
  cases hc : c.tcpHandler with
  | none =>
    refine ⟨{ c with inputBuf := c.inputBuf ++ bytes }, by rw [Connection.read, hc], hs.lock, ?_⟩
    intro h hh
    rw [show c.tcpHandler = some h from hh] at hc
    cases hc
  | some h =>
    obtain ⟨ins, hst, htag⟩ := hs.stands h hc
    obtain ⟨r, hr, hread, hpost⟩ := hst.dealReadEvent fun x hx => (hlen x hx).2
    refine ⟨⟨if r.success = 0 then none else some r.handler, r.inputBuf, c.worker⟩, ?_, hs.lock, ?_⟩
    · simp only [Connection.read, hc, hr, bind, Except.bind, pure, Except.pure]
    intro h' hh'
    by_cases hzero : r.success = 0
    · simp [hzero] at hh'
    · simp only [if_neg hzero] at hh'
      obtain rfl := Option.some.inj hh'
      exact ⟨ins, ⟨hread.follows hzero,
        hread.receiving hpost hzero (not_endsEmpty fun x hx => (hlen x hx).1)⟩, htag⟩

/-- A push does not fault; what it takes are the nodes `drained`. -/
theorem StandsAt.push (hs : StandsAt L connId bev stream c) :
    ∃ c', c.push mallocOk = .ok c' ∧ StandsAt L connId bev stream c' ∧
      ∀ h, c.tcpHandler = some h → ∃ h', c'.tcpHandler = some h' ∧
        NetWorker.Drained h h' h.drained.length ∧
        c'.worker.m_msgInStream.tagged MsgNode.message =
          c.worker.m_msgInStream.tagged MsgNode.message ++
            h.drained.map fun n => (h.m_nConnId, n.message) := by
  cases hc : c.tcpHandler with
  | none => exact ⟨c, by rw [Connection.push, hc], hs, fun h hh => by cases hh⟩
  | some h =>
    obtain ⟨ins, hst, htag⟩ := hs.stands h hc
    obtain ⟨w, h', hpush⟩ := hst.follows.push_ok hs.lock
    obtain ⟨ms, hshows⟩ := hst.follows.shows
    obtain ⟨htagged, -, hd, hw⟩ := NetWorker.pushNodeInStream_inv keeps_message hpush
    refine ⟨⟨some h', c.inputBuf, w⟩, ?_, ⟨?_, ?_⟩, ?_⟩
    · simp only [Connection.push, hc, hpush, bind, Except.bind, pure, Except.pure]
    · rw [hw]
      exact hs.lock
    · intro h'' hh''
      obtain rfl := Option.some.inj hh''
      refine ⟨_, hst.push hshows hpush, ?_⟩
      rw [(hst.follows.push hshows hpush).1, htag, List.map_append]
      rfl
    · intro h'' hh''
      obtain rfl := Option.some.inj hh''
      exact ⟨h', rfl, hd, htagged⟩

theorem calls_standsAt {cs : List Call} (hok : ∀ x ∈ cs, x.malloc = mallocOk)
    (hlen : ∀ x ∈ announcedLengths L (arrived cs), 1 ≤ x.2 ∧ x.2 < 2 ^ 31) :
    ∃ c, calls L connId bev cs = .ok c ∧ StandsAt L connId bev (arrived cs) c := by
  refine Run.progress (fun before c => StandsAt L connId bev (arrived before) c) ⟨rfl, ?_⟩ ?_
  · intro h hh
    obtain rfl := Option.some.inj hh
    exact ⟨[], stands_new L connId bev, rfl⟩
  · rintro before x after c rfl hs
    have hm := hok x (by simp)
    rw [arrived_concat]
    cases x with
    | read bytes malloc =>
      obtain rfl : malloc = mallocOk := hm
      apply hs.read bytes
      intro x hx
      apply hlen x
      have harr : arrived (before ++ .read bytes mallocOk :: after) =
          (arrived before ++ bytes) ++ arrived after := by
        simp [arrived, Call.bytes]
      rw [harr]
      exact (announcedLengths_append L _ _).subset hx
    | push malloc =>
      obtain rfl : malloc = mallocOk := hm
      obtain ⟨c', hpush, hs', -⟩ := hs.push
      refine ⟨c', hpush, ?_⟩
      rw [Call.bytes, List.append_nil]
      exact hs'

/-- What is pushed and then what is in the list are the messages of the stream, in the order they
arrived, and the list has its shape; also when a read has just refused a head. -/
structure Shaped (L : IntLayout) (connId : UInt64) (stream : List UInt8) (c : Connection) :
    Prop where
  listShape : ∀ h, c.tcpHandler = some h → ListShape h
  messages : ∀ h, c.tcpHandler = some h →
    c.worker.m_msgInStream.tagged MsgNode.message ++
        (h.m_listMsgs.values.filter MsgNode.isReceived).map (fun n => (connId, n.message)) =
      (decode L stream).1.map fun m => (connId, m)
  read : ∀ h, c.tcpHandler = some h → ∀ bytes,
    (∀ x ∈ announcedLengths L (stream ++ bytes), 1 ≤ x.2 ∧ x.2 < 2 ^ 31) →
      ∃ r, h.dealReadEvent L mallocOk 1 (c.inputBuf ++ bytes) = .ok r ∧ ListShape r.handler

theorem StandsAt.shaped (hs : StandsAt L connId bev stream c) : Shaped L connId stream c := by
  refine ⟨?_, ?_, ?_⟩
  · intro h hh
    obtain ⟨ins, hst, -⟩ := hs.stands h hh
    exact hst.listShape
  · intro h hh
    obtain ⟨ins, hst, htag⟩ := hs.stands h hh
    obtain ⟨ms, hshows⟩ := hst.follows.shows
    rw [hshows.frames, htag, List.map_append, ← hshows.received, List.map_map]
    rfl
  · intro h hh bytes hlen
    obtain ⟨ins, hst, -⟩ := hs.stands h hh
    obtain ⟨r, hr, hread, hpost⟩ := hst.dealReadEvent fun x hx => (hlen x hx).2
    exact ⟨r, hr, hread.listShape hpost hlen⟩

/-- A push moves all received nodes to the worker's stream, in the order of the list, and leaves
nothing but the unfinished one. -/
def Drains (c : Connection) : Call → Prop
  | .read _ _ => True
  | .push malloc => ∀ h, c.tcpHandler = some h → ∃ c' h', c.push malloc = .ok c' ∧
      c'.tcpHandler = some h' ∧ Emptied h h' ∧
      c'.worker.m_msgInStream.tagged MsgNode.message =
        c.worker.m_msgInStream.tagged MsgNode.message ++
          (h.m_listMsgs.values.filter MsgNode.isReceived).map fun n => (h.m_nConnId, n.message)

/-- The number of nodes that a push finds fits into a `UInt32`. -/
def FewNodes (c : Connection) : Call → Prop
  | .read _ _ => True
  | .push _ => ∀ h, c.tcpHandler = some h → h.m_listMsgs.values.length < 2 ^ 32

theorem StandsAt.drains_call_iff (hs : StandsAt L connId bev stream c) {x : Call}
    (hok : x.malloc = mallocOk) : c.Drains x ↔ c.FewNodes x := by
  cases x with
  | read bytes malloc => exact Iff.rfl
  | push malloc =>
    obtain rfl : malloc = mallocOk := hok
    obtain ⟨c', hpush, -, hdrained⟩ := hs.push
    refine forall_congr' fun h => forall_congr' fun hh => ?_
    obtain ⟨h', hh', hd, htagged⟩ := hdrained h hh
    have hiff := (hs.shaped.listShape h hh).emptied_iff hd
    rw [← hiff]
    constructor
    · rintro ⟨c'', h'', hpush', hh'', hemptied, htagged'⟩
      obtain rfl := Except.ok.inj (hpush.symm.trans hpush')
      obtain rfl := Option.some.inj (hh'.symm.trans hh'')
      refine ⟨hemptied, ?_⟩
      have hlen := congrArg List.length (List.append_cancel_left (htagged.symm.trans htagged'))
      rw [List.length_map, List.length_map] at hlen
      exact (hs.shaped.listShape h hh).drained_le.eq_of_length hlen
    · rintro ⟨hemptied, hall⟩
      exact ⟨c', h', hpush, hh', hemptied, by rw [htagged, hall]⟩

/-- **The list drains.** When announced lengths are between `1` and `2 ^ 31 - 1`, the list has its
shape in every state of a run of reads and pushes, and the pushes take all received nodes, in the
order they arrived, if and only if none of them finds `2 ^ 32` nodes or more. -/
theorem drains_iff (L : IntLayout) (connId : UInt64) (bev : Option ℕ) (cs : List Call)
    (hok : ∀ x ∈ cs, x.malloc = mallocOk)
    (hlen : ∀ x ∈ announcedLengths L (arrived cs), 1 ≤ x.2 ∧ x.2 < 2 ^ 31) :
    (∀ before, before <+: cs → ∃ c, calls L connId bev before = .ok c ∧
        Shaped L connId (arrived before) c) ∧
      (Run.EachStep (calls L connId bev) Drains cs ↔
        Run.EachStep (calls L connId bev) FewNodes cs) := by
  have hstands : ∀ before, before <+: cs → ∃ c, calls L connId bev before = .ok c ∧
      StandsAt L connId bev (arrived before) c := by
    rintro before ⟨after, rfl⟩
    apply calls_standsAt
    · intro x hx
      exact hok x (List.mem_append_left _ hx)
    · intro x hx
      apply hlen x
      rw [arrived, List.flatMap_append]
      exact (announcedLengths_append L _ _).subset hx
  constructor
  · intro before hbefore
    obtain ⟨c, hrun, hs⟩ := hstands before hbefore
    exact ⟨c, hrun, hs.shaped⟩
  · refine forall_congr' fun before => forall_congr' fun x => forall_congr' fun after =>
      forall_congr' fun c => forall_congr' fun hsplit => forall_congr' fun hrun => ?_
    obtain ⟨c', hrun', hs⟩ := hstands before ⟨x :: after, hsplit.symm⟩
    obtain rfl := Except.ok.inj (hrun'.symm.trans hrun)
    exact hs.drains_call_iff (hok x (by simp [hsplit]))

/-- A message and the beginning of the next one. -/
def cutMessage : Call :=
  .read [0, 0, 0, 0, 1, 0, 0, 0, 65, 1, 0, 0, 0, 2, 0, 0, 0, 66] mallocOk

/-- The push after it takes the first message, and leaves the other one. -/
theorem drains_iff_cutMessage :
    ∃ c, calls .little 1 none [cutMessage] = .ok c ∧ Shaped .little 1 (arrived [cutMessage]) c ∧
      c.Drains (.push mallocOk) := by
  have hok : ∀ x ∈ [cutMessage, .push mallocOk], x.malloc = mallocOk := by
    intro x hx
    rcases List.mem_pair.mp hx with rfl | rfl
    · rfl
    · rfl
  obtain ⟨hshaped, hdrains⟩ :=
    drains_iff .little 1 none [cutMessage, .push mallocOk] hok (by decide)
  obtain ⟨c, hrun, hs⟩ := hshaped [cutMessage] (List.prefix_append [cutMessage] [.push mallocOk])
  have hfew : Run.EachStep (calls .little 1 none) FewNodes [cutMessage, .push mallocOk] := by
    intro before x after c₁ hsplit hrun₁
    cases x with
    | read bytes malloc => trivial
    | push malloc =>
      obtain rfl : before = [cutMessage] := by
        rcases before with - | ⟨y, before⟩
        · cases hsplit
        · obtain ⟨rfl, hrest⟩ := List.cons.inj hsplit
          rcases before with - | ⟨z, before⟩
          · rfl
          · simp at hrest
      obtain ⟨c₂, h₂, hc₂, hh₂, hfew⟩ : ∃ c h, calls .little 1 none [cutMessage] = .ok c ∧
          c.tcpHandler = some h ∧ h.m_listMsgs.values.length < 2 ^ 32 :=
        ⟨_, _, rfl, rfl, by decide⟩
      obtain rfl := Except.ok.inj (hrun₁.symm.trans hc₂)
      intro h hh
      obtain rfl := Option.some.inj (hh.symm.trans hh₂)
      exact hfew
  exact ⟨c, hrun, hs, hdrains.mpr hfew [cutMessage] (.push mallocOk) [] c rfl hrun⟩

/-- Messages of one byte, all in one read, are received and in the list. -/
theorem read_oneByteFrames (n : ℕ) :
    ∃ c h, calls .little 1 none [.read (oneByteFrames n).flatten mallocOk] = .ok c ∧
      StandsAt .little 1 none (oneByteFrames n).flatten c ∧ c.tcpHandler = some h ∧
      (∀ n ∈ h.m_listMsgs.values, n.isReceived = true) ∧ h.m_listMsgs.values.length = n := by
  have hlen := announcedLengths_oneByteFrames n
  have hdecode := decode_oneByteFrames n
  obtain ⟨r, hr, ⟨ms, hms, ho⟩, -⟩ :=
    (stands_new .little 1 none).dealReadEvent fun x hx => (hlen x hx).2
  simp only [List.nil_append] at hms ho
  have hsucc : r.success ≠ 0 := by
    intro hzero
    have href := ho.refused_iff.mp hzero
    rw [hdecode] at href
    cases href
  have hviews : r.handler.views = ms.map messageView := by
    have := ho.views_eq
    rwa [hdecode, partViews, List.append_nil] at this
  have hrun : calls .little 1 none [.read (oneByteFrames n).flatten mallocOk] =
      .ok ⟨some r.handler, r.inputBuf, .new⟩ := by
    simp only [calls, List.foldlM_cons, List.foldlM_nil, call, Connection.read, accept, hr, bind,
      Except.bind, pure, Except.pure, if_neg hsucc]
  have harr : arrived [.read (oneByteFrames n).flatten mallocOk] = (oneByteFrames n).flatten := by
    simp [arrived, Call.bytes]
  have hok : ∀ x ∈ [Call.read (oneByteFrames n).flatten mallocOk], x.malloc = mallocOk := by
    intro x hx
    rw [List.mem_singleton.mp hx]
    rfl
  obtain ⟨c, hrun', hs⟩ : ∃ c, calls .little 1 none [.read (oneByteFrames n).flatten mallocOk] =
      .ok c ∧ StandsAt .little 1 none _ c := calls_standsAt hok (by rw [harr]; exact hlen)
  rw [harr] at hs
  obtain rfl := Except.ok.inj (hrun.symm.trans hrun')
  refine ⟨_, r.handler, hrun, hs, rfl, ?_, ?_⟩
  · intro m hm
    obtain ⟨x, hx, rfl⟩ := List.mem_map.mp hm
    rw [MsgNode.isReceived_iff, offset_eq_of_mem ((views_of_cells rfl).symm.trans hviews) hx]
    exact UInt32.le_refl _
  · rw [← List.length_map (f := MsgNode.view), ← views, hviews, List.length_map, ← hms, hdecode,
      List.length_replicate]

/-- `2 ^ 32` of them are counted as none, and the push takes none. -/
theorem push_truncated :
    ∃ c h, calls .little 1 none [.read (oneByteFrames (2 ^ 32)).flatten mallocOk] = .ok c ∧
      c.tcpHandler = some h ∧ (∀ n ∈ h.m_listMsgs.values, n.isReceived = true) ∧
      h.m_listMsgs.values.length = 2 ^ 32 ∧ ¬ c.Drains (.push mallocOk) := by
  obtain ⟨c, h, hrun, hs, hh, hrec, hcount⟩ := read_oneByteFrames (2 ^ 32)
  refine ⟨c, h, hrun, hh, hrec, hcount, ?_⟩
  intro hdrains
  have hfew := (hs.drains_call_iff rfl).mp hdrains h hh
  rw [hcount] at hfew
  exact lt_irrefl _ hfew

end Connection

end SmartServer
