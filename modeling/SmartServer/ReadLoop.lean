import SmartServer.TcpHandler

/-!
# What the read loop computes

**Theorem (`dealReadEvent_spec`).** If a handler stands in phase `ph` of the packet stream
(`Tracks`), then `dealReadEvent` on the buffered bytes moves it as the packet decoder moves over
them: the decoder's packets appear as nodes at the end of the list, the handler ends in the
decoder's last phase, what is left in the buffer is an unfinished head, and `success` is `0`
exactly when the decoder refuses a head. The one exception is a body byte of a packet that
announced `2 ^ 32 - 1` bytes: it is stored outside the buffer.

The loop consumes the stream in bites, and every bite moves the handler as the decoder moves
over it (`Sim`). The invariant of the loop is therefore that the decoder, run from where the
handler is over what is still buffered, ends where it ended when it was run from the start.
-/

namespace SmartServer

open Framing

/-- What can be seen of a node: id, length, offset and the bytes received so far. -/
abbrev NodeView := UInt32 × UInt32 × UInt32 × List UInt8

def MsgNode.view (n : MsgNode) : NodeView := (n.m_nMsgId, n.m_nMsgLen, n.m_nOffSet, n.received)

/-- The view of a node that has received a whole message. -/
def messageView (m : Message) : NodeView :=
  (m.1, UInt32.ofNat m.2.length, UInt32.ofNat m.2.length, m.2)

/-- A node with the view of a message holds it, and can be copied. -/
theorem MsgNode.of_view {n : MsgNode} {m : Message} (h : n.view = messageView m)
    (hlen : m.2.length < 2 ^ 32) : n.Copyable ∧ n.isReceived ∧ n.message = m := by
  obtain ⟨id, payload⟩ := m
  simp only [view, messageView, Prod.mk.injEq] at h
  obtain ⟨hid, hl, ho, hrec⟩ := h
  have hpay : n.payload = payload := by rw [MsgNode.payload, hl, ← ho]; exact hrec
  have hnat : n.m_nMsgLen.toNat = payload.length := by rw [hl, UInt32.toNat_ofNat_of_lt' hlen]
  refine ⟨⟨?_, ?_⟩, ?_, by rw [message, hid, hpay]⟩
  · intro hw
    cases hb : n.m_pMsg with
    | none =>
      have hnil : payload = [] := by simpa [MsgNode.payload, hb] using hpay.symm
      rw [hnil, hw] at hnat
      exact absurd hnat (by decide)
    | some blk =>
      have hnil : payload = [] := by
        simpa [MsgNode.payload, hb, buffer_eq_nil hb hw] using hpay.symm
      rw [hnil, hw] at hnat
      exact absurd hnat (by decide)
  · intro hb
    have hnil : payload = [] := by simpa [MsgNode.payload, hb] using hpay.symm
    exact UInt32.toNat_inj.mp (by simpa [hnil] using hnat)
  · rw [isReceived_iff, hl, ho]
    exact UInt32.le_refl _

namespace TcpHandler

/-- The nodes of the list, front first, as they can be seen. -/
def views (h : TcpHandler) : List NodeView := h.m_listMsgs.values.map MsgNode.view

/-! ## Where in the stream a handler stands -/

/-- `m_pLastNode` points to the last node of the list, and that has a buffer. -/
structure Filling (h : TcpHandler) (init : List (ℕ × MsgNode)) (p : ℕ) (n : MsgNode)
    (blk : List UInt8) : Prop where
  cells : h.m_listMsgs.cells = init ++ [(p, n)]
  cursor : h.m_pLastNode = some p
  buffer : n.m_pMsg = some blk

/-- There is nothing to receive into: `m_pLastNode` is `NULL`, or a live node that is fully
received. -/
def Idle (h : TcpHandler) : Prop :=
  ∀ p, h.m_pLastNode = some p →
    ∃ n, h.m_listMsgs.get? p = some n ∧ n.m_nMsgLen ≤ n.m_nOffSet

def cellViews (cells : List (ℕ × MsgNode)) : List NodeView := cells.map fun c => c.2.view

theorem views_of_cells {h : TcpHandler} {cells : List (ℕ × MsgNode)}
    (hc : h.m_listMsgs.cells = cells) : h.views = cellViews cells := by
  rw [views, OwnedList.values, hc, List.map_map, cellViews]
  rfl

/-- The handler stands in phase `ph`, with settled nodes `vs` before the one it receives. -/
inductive Tracks : TcpHandler → List NodeView → Phase UInt8 UInt32 → Prop
  | idle {h : TcpHandler} : h.Idle → Tracks h h.views (.head [])
  | busy {h : TcpHandler} {init : List (ℕ × MsgNode)} {p : ℕ} {n : MsgNode} {blk : List UInt8} :
      h.Filling init p n blk → n.m_nOffSet < n.m_nMsgLen →
      n.received.length = n.m_nOffSet.toNat →
      Tracks h (cellViews init) (.body n.m_nMsgId n.m_nMsgLen.toNat n.received)

theorem tracks_new (connId : UInt64) (bev : Option ℕ) :
    Tracks (.new connId bev) [] (.head []) :=
  .idle fun p hp => by cases hp

theorem Filling.lastNode {h : TcpHandler} {init : List (ℕ × MsgNode)} {p : ℕ} {n : MsgNode}
    {blk : List UInt8} (hf : h.Filling init p n blk) : h.lastNode = .ok (p, n) := by
  simp [TcpHandler.lastNode, hf.cursor, OwnedList.get?_last hf.cells]

theorem Filling.views {h : TcpHandler} {init : List (ℕ × MsgNode)} {p : ℕ} {n : MsgNode}
    {blk : List UInt8} (hf : h.Filling init p n blk) :
    h.views = cellViews init ++ [n.view] := by
  rw [views_of_cells hf.cells, cellViews, List.map_append]
  rfl

theorem expectsHead_of_idle {h : TcpHandler} (hi : h.Idle) : h.expectsHead = .ok true := by
  cases hp : h.m_pLastNode with
  | none => simp [expectsHead, hp]
  | some p =>
    obtain ⟨n, hn, hle⟩ := hi p hp
    simp [expectsHead, TcpHandler.lastNode, hp, hn, hle, bind, Except.bind, pure, Except.pure]

theorem Filling.expectsHead {h : TcpHandler} {init : List (ℕ × MsgNode)} {p : ℕ} {n : MsgNode}
    {blk : List UInt8} (hf : h.Filling init p n blk) :
    h.expectsHead = .ok (decide (n.m_nMsgLen ≤ n.m_nOffSet)) := by
  simp [TcpHandler.expectsHead, hf.cursor, hf.lastNode, bind, Except.bind, pure, Except.pure]

/-- A node that has just been inserted. -/
theorem filling_insertNode (h : TcpHandler) (msgId msgLen : UInt32) :
    (h.insertNode .block msgId msgLen).Filling h.m_listMsgs.cells h.m_listMsgs.next
      (.new .block msgId msgLen) (List.replicate (msgLen + 1).toNat 0) :=
  ⟨rfl, rfl, rfl⟩

/-- The handler keeps its connection. -/
def SameConn (h h' : TcpHandler) : Prop :=
  h'.m_nConnId = h.m_nConnId ∧ h'.m_pBufferevent = h.m_pBufferevent

theorem SameConn.refl (h : TcpHandler) : SameConn h h := ⟨rfl, rfl⟩

theorem SameConn.trans {h₁ h₂ h₃ : TcpHandler} (h : SameConn h₁ h₂) (h' : SameConn h₂ h₃) :
    SameConn h₁ h₃ := ⟨h'.1.trans h.1, h'.2.trans h.2⟩

/-! ## Receiving into the current node -/

/-- The body bytes of a packet of length `2 ^ 32 - 1` have nowhere to go. -/
theorem tcpRead_wrapLen {s : ReadState} {init : List (ℕ × MsgNode)} {p : ℕ} {n : MsgNode}
    {blk : List UInt8} (hf : s.handler.Filling init p n blk) (hlt : n.m_nOffSet < n.m_nMsgLen)
    (hbuf : s.inputBuf ≠ []) (hw : n.m_nMsgLen = MsgNode.wrapLen) :
    tcpRead s = .error .outOfBounds := by
  have hnil := MsgNode.buffer_eq_nil hf.buffer hw
  have hge : n.m_nMsgLen ≥ n.m_nOffSet := by
    rw [ge_iff_le, UInt32.le_iff_toNat_le]
    exact (UInt32.lt_iff_toNat_lt.mp hlt).le
  have hsub : (n.m_nMsgLen - n.m_nOffSet).toNat = n.m_nMsgLen.toNat - n.m_nOffSet.toNat :=
    UInt32.toNat_sub_of_le _ _ hge
  have hlen : 0 < s.inputBuf.length := List.length_pos_iff.mpr hbuf
  have hpos := UInt32.lt_iff_toNat_lt.mp hlt
  have hstore : n.store n.m_nOffSet.toNat
      (s.inputBuf.take (n.m_nMsgLen - n.m_nOffSet).toNat) = .error .outOfBounds := by
    apply MsgNode.store_outOfBounds hf.buffer
    rw [hnil, List.length_take, hsub, List.length_nil]
    omega
  simp only [tcpRead, hf.lastNode, bind, Except.bind, if_pos hge, buffereventRead, hstore]

/-- The stores of `tcpRead`: the bytes read land behind those received before. -/
theorem store_received {n : MsgNode} {blk : List UInt8} (hb : n.m_pMsg = some blk)
    (hw : n.m_nMsgLen ≠ MsgNode.wrapLen) (data : List UInt8)
    (hlen : n.m_nOffSet.toNat + data.length ≤ n.m_nMsgLen.toNat) :
    ∃ n', n.store n.m_nOffSet.toNat data = .ok n' ∧ n'.m_nMsgLen = n.m_nMsgLen ∧
      n'.m_nMsgId = n.m_nMsgId ∧ n'.m_nOffSet = n.m_nOffSet ∧
      (n.m_nOffSet + UInt32.ofNat data.length).toNat = n.m_nOffSet.toNat + data.length ∧
      ∃ blk', n'.m_pMsg = some blk' ∧
        blk'.take (n.m_nOffSet.toNat + data.length) = n.received ++ data := by
  have hcap := MsgNode.length_buffer hb hw
  obtain ⟨n', hs, hlen', hid', hoff', hblk'⟩ :=
    MsgNode.store_ok hb n.m_nOffSet.toNat data (by omega)
  have hlt := n.m_nMsgLen.toNat_lt
  have hdata : data.length < 2 ^ 32 := by omega
  refine ⟨n', hs, hlen', hid', hoff', ?_, _, hblk', ?_⟩
  · rw [UInt32.toNat_add, UInt32.toNat_ofNat_of_lt' hdata]
    omega
  · rw [Block.take_overwrite (by omega), MsgNode.received, hb, Option.getD_some]

/-- Fewer bytes than the message still needs: the node stays the current one. -/
theorem tcpRead_short {s : ReadState} {init : List (ℕ × MsgNode)} {p : ℕ} {n : MsgNode}
    {blk : List UInt8} (hf : s.handler.Filling init p n blk)
    (hw : n.m_nMsgLen ≠ MsgNode.wrapLen) (hlen : s.inputLen = s.inputBuf.length)
    (hoff : n.received.length = n.m_nOffSet.toNat)
    (hshort : n.m_nOffSet.toNat + s.inputBuf.length < n.m_nMsgLen.toNat) :
    ∃ h', tcpRead s = .ok ⟨h', [], 0⟩ ∧ SameConn s.handler h' ∧
      Tracks h' (cellViews init)
        (.body n.m_nMsgId n.m_nMsgLen.toNat (n.received ++ s.inputBuf)) := by
  have hge : n.m_nMsgLen ≥ n.m_nOffSet := UInt32.le_iff_toNat_le.mpr (by omega)
  have hsub : (n.m_nMsgLen - n.m_nOffSet).toNat = n.m_nMsgLen.toNat - n.m_nOffSet.toNat :=
    UInt32.toNat_sub_of_le _ _ hge
  have htake : s.inputBuf.take (n.m_nMsgLen - n.m_nOffSet).toNat = s.inputBuf :=
    List.take_of_length_le (by omega)
  have hdrop : s.inputBuf.drop (n.m_nMsgLen - n.m_nOffSet).toNat = [] :=
    List.drop_eq_nil_of_le (by omega)
  obtain ⟨n', hs, hlen', hid', hoff', hsum, blk', hblk', hrec⟩ :=
    store_received hf.buffer hw s.inputBuf (by omega)
  have hlt : n.m_nOffSet + UInt32.ofNat s.inputBuf.length < n.m_nMsgLen :=
    UInt32.lt_iff_toNat_lt.mpr (by omega)
  have hmsg := n.m_nMsgLen.toNat_lt
  set n'' : MsgNode := { n' with m_nOffSet := n'.m_nOffSet + UInt32.ofNat s.inputBuf.length }
    with hn''
  refine ⟨{ s.handler with m_listMsgs := s.handler.m_listMsgs.set p n'' }, ?_, ⟨rfl, rfl⟩, ?_⟩
  · have hcond : ¬ n'.m_nOffSet + UInt32.ofNat s.inputBuf.length ≥ n'.m_nMsgLen := by
      rw [hoff', hlen']
      exact UInt32.not_le.mpr hlt
    have hzero : sizeSub s.inputLen (UInt32.ofNat s.inputBuf.length).toNat = 0 := by
      have hdle : s.inputBuf.length < 2 ^ 32 := by omega
      rw [UInt32.toNat_ofNat_of_lt' hdle, hlen, sizeSub_of_le le_rfl, Nat.sub_self]
    simp only [tcpRead, hf.lastNode, bind, Except.bind, if_pos hge, buffereventRead, htake, hdrop,
      hs, if_neg hcond, hzero, pure, Except.pure, hn'']
  · have hfill : Filling { s.handler with m_listMsgs := s.handler.m_listMsgs.set p n'' } init p
        n'' blk' := ⟨OwnedList.cells_set_last hf.cells _, hf.cursor, hblk'⟩
    have hreceived : n''.received = n.received ++ s.inputBuf := by
      simp only [MsgNode.received, hn'', hblk', Option.getD_some, hoff', hsum]
      exact hrec
    have hbusy := Tracks.busy hfill (by rw [hn'']; simpa [hoff', hlen'] using hlt)
      (by rw [hreceived, List.length_append, hoff, hn'']; simp only [hoff', hsum])
    rw [hreceived] at hbusy
    simpa [hn'', hid', hlen'] using hbusy

/-- All the bytes the message still needs: it is complete, and there is no current node. -/
theorem tcpRead_complete {s : ReadState} {init : List (ℕ × MsgNode)} {p : ℕ} {n : MsgNode}
    {blk : List UInt8} (hf : s.handler.Filling init p n blk)
    (hw : n.m_nMsgLen ≠ MsgNode.wrapLen) (hlen : s.inputLen = s.inputBuf.length)
    (hoff : n.m_nOffSet ≤ n.m_nMsgLen) (data rest : List UInt8)
    (hbuf : s.inputBuf = data ++ rest)
    (hdata : n.m_nOffSet.toNat + data.length = n.m_nMsgLen.toNat) :
    ∃ h', tcpRead s = .ok ⟨h', rest, rest.length⟩ ∧ SameConn s.handler h' ∧
      h'.m_pLastNode = none ∧
      h'.views =
        cellViews init ++ [(n.m_nMsgId, n.m_nMsgLen, n.m_nMsgLen, n.received ++ data)] := by
  have hsub : (n.m_nMsgLen - n.m_nOffSet).toNat = data.length := by
    rw [UInt32.toNat_sub_of_le _ _ hoff]
    omega
  obtain ⟨n₁, hs₁, hlen₁, hid₁, hoff₁, hsum, blk₁, hblk₁, hrec⟩ :=
    store_received hf.buffer hw data (by omega)
  have hend : n.m_nOffSet + UInt32.ofNat data.length = n.m_nMsgLen :=
    UInt32.toNat_inj.mp (by omega)
  have hmsg := n.m_nMsgLen.toNat_lt
  set n₂ : MsgNode := { n₁ with m_nOffSet := n₁.m_nOffSet + UInt32.ofNat data.length } with hn₂
  have hcap : blk₁.length = n.m_nMsgLen.toNat + 1 := by
    rw [← hlen₁]
    exact MsgNode.length_buffer hblk₁ (by rwa [hlen₁])
  -- the terminator goes right behind the message, the last byte of the buffer
  obtain ⟨n₃, hs₃, hlen₃, hid₃, hoff₃, hblk₃⟩ := MsgNode.store_ok (n := n₂) hblk₁
    n₂.m_nMsgLen.toNat [0] (by rw [hn₂]; simp [hlen₁, hcap])
  refine ⟨{ s.handler with m_listMsgs := s.handler.m_listMsgs.set p n₃, m_pLastNode := none },
    ?_, ⟨rfl, rfl⟩, rfl, ?_⟩
  · have hcond : n₁.m_nOffSet + UInt32.ofNat data.length ≥ n₁.m_nMsgLen := by
      rw [hoff₁, hlen₁, hend]
      exact UInt32.le_refl _
    have hleft : sizeSub s.inputLen (UInt32.ofNat data.length).toNat = rest.length := by
      have hdle : data.length < 2 ^ 32 := by omega
      rw [UInt32.toNat_ofNat_of_lt' hdle, hlen, hbuf, List.length_append,
        sizeSub_of_le (by omega)]
      omega
    rw [hn₂] at hs₃
    simp only [tcpRead, hf.lastNode, bind, Except.bind, ge_iff_le, if_pos hoff, buffereventRead,
      hsub, hbuf, List.take_left, List.drop_left, hs₁, hs₃, if_pos hcond, pure, Except.pure]
    rw [hleft]
  · rw [views_of_cells (OwnedList.cells_set_last hf.cells n₃), cellViews, List.map_append]
    have hoffset : n₃.m_nOffSet = n.m_nMsgLen := by rw [hoff₃, hn₂]; simp [hoff₁, hend]
    have hreceived : n₃.received = n.received ++ data := by
      rw [MsgNode.received, hblk₃, Option.getD_some, hoffset, hn₂]
      rw [hlen₁, Block.take_overwrite_of_le le_rfl (by omega), ← hdata]
      exact hrec
    simp [MsgNode.view, hid₃, hlen₃, hoffset, hreceived, hn₂, hid₁, hlen₁, cellViews]

/-! ## One pass of the loop -/

variable (L : IntLayout)

/-- The body byte that arrives in this phase has a place in the buffer. -/
def Roomy (ph : Phase UInt8 UInt32) : Prop := ∀ x ∈ ph.pending, x.2 ≠ MsgNode.wrapLen.toNat

/-- The decoder, run from phase `ph₁` with the nodes `vs₁` over `buf`, ends in phase `ph` with
the nodes `vs`; `room` says whether all body bytes on the way have room. -/
structure Reaches (vs₁ : List NodeView) (ph₁ : Phase UInt8 UInt32) (buf : List UInt8)
    (vs : List NodeView) (ph : Phase UInt8 UInt32) (room : Prop) : Prop where
  views : vs₁ ++ ((packetCodec L).feed ph₁ buf).1.map messageView = vs
  phase : ((packetCodec L).feed ph₁ buf).2 = ph
  room : (packetCodec L).Throughout Roomy ph₁ buf ↔ room

variable {L} {vs₁ vs : List NodeView} {ph₁ ph : Phase UInt8 UInt32} {room : Prop}

/-- A bite the handler takes as the decoder does. -/
theorem Reaches.bite {a b : List UInt8} (h : Reaches L vs₁ ph₁ (a ++ b) vs ph room)
    {fs : List Message} {ph₂ : Phase UInt8 UInt32} (hfeed : (packetCodec L).feed ph₁ a = (fs, ph₂))
    (ha : (packetCodec L).Throughout Roomy ph₁ a) :
    Reaches L (vs₁ ++ fs.map messageView) ph₂ b vs ph room := by
  obtain ⟨hv, hp, hr⟩ := h
  rw [Format.feed_append, hfeed] at hv hp
  rw [Format.throughout_append, hfeed] at hr
  exact ⟨by simpa using hv, hp, by simpa [ha] using hr⟩

/-- The handler stands where the decoder has to go on from. -/
structure Sim (L : IntLayout) (h₀ : TcpHandler) (vs : List NodeView)
    (ph : Phase UInt8 UInt32) (room : Prop) (s : ReadState) : Prop where
  inputLen : s.inputLen = s.inputBuf.length
  conn : SameConn h₀ s.handler
  reaches : ∃ vs₁ ph₁, Tracks s.handler vs₁ ph₁ ∧ Reaches L vs₁ ph₁ s.inputBuf vs ph room

/-- What `dealReadEvent` leaves when the decoder ends in phase `ph` with the nodes `vs`. -/
def Outcome (h₀ : TcpHandler) (vs : List NodeView) (ph : Phase UInt8 UInt32)
    (r : ReadResult) : Prop :=
  SameConn h₀ r.handler ∧
    match ph with
    | .head got => r.success = 1 ∧ r.inputBuf = got ∧ Tracks r.handler vs (.head [])
    | .body h len got =>
      r.success = 1 ∧ r.inputBuf = [] ∧ Tracks r.handler vs (.body h len got)
    | .refused => r.success = 0 ∧ r.handler.views = vs

/-- How the loop ends. -/
def Ends (h₀ : TcpHandler) (vs : List NodeView) (ph : Phase UInt8 UInt32) (room : Prop) :
    Except Fault ReadResult → Prop
  | .error f => f = .outOfBounds ∧ ¬ room
  | .ok r => room ∧ Outcome h₀ vs ph r

variable {h₀ : TcpHandler}

/-- Nothing is buffered any more: the loop is left, and the decoder has arrived too. -/
theorem ends_of_nil {h : TcpHandler} (ht : Tracks h vs₁ ph₁) (hc : SameConn h₀ h)
    (hr : Reaches L vs₁ ph₁ [] vs ph room) : Ends h₀ vs ph room (.ok ⟨h, [], 1⟩) := by
  obtain ⟨hv, hp, hroom⟩ := hr
  rw [Format.feed_nil] at hv hp
  obtain rfl : vs₁ = vs := by simpa using hv
  subst hp
  refine ⟨hroom.mp trivial, hc, ?_⟩
  cases ht with
  | idle hi => exact ⟨rfl, rfl, .idle hi⟩
  | busy hf hlt hrec => exact ⟨rfl, rfl, .busy hf hlt hrec⟩

theorem throughout_body_of {id : UInt32} {len : UInt32} (hw : len ≠ MsgNode.wrapLen)
    {got bs : List UInt8} (hlen : got.length + bs.length ≤ len.toNat) :
    (packetCodec L).Throughout Roomy (.body id len.toNat got) bs := by
  refine Format.throughout_body _ ?_ hlen
  intro _ x hx
  obtain rfl : x = (id, len.toNat) := by simpa [Phase.pending] using hx
  exact fun he => hw (UInt32.toNat_inj.mp he)

/-- `readBody` with a message to receive. -/
theorem readBody_busy {s : ReadState} (hlen : s.inputLen = s.inputBuf.length)
    (hc : SameConn h₀ s.handler) {init : List (ℕ × MsgNode)} {p : ℕ} {n : MsgNode}
    {blk : List UInt8} (hf : s.handler.Filling init p n blk) (hlt : n.m_nOffSet < n.m_nMsgLen)
    (hrec : n.received.length = n.m_nOffSet.toNat)
    (hr : Reaches L (cellViews init) (.body n.m_nMsgId n.m_nMsgLen.toNat n.received) s.inputBuf
      vs ph room) :
    Loop.Establishes (Sim L h₀ vs ph room) (·.inputBuf.length) (Ends h₀ vs ph room)
      (s.inputBuf.length + if s.inputBuf = [] then 1 else 0) (readBody 1 s) := by
  by_cases hnil : s.inputBuf = []
  · have hzero : s.inputLen ≤ 0 := by rw [hlen, hnil]; rfl
    rw [readBody, if_pos hzero]
    rw [hnil] at hr ⊢
    exact ends_of_nil (.busy hf hlt hrec) hc hr
  have hpos : ¬ s.inputLen ≤ 0 := by
    have := List.length_pos_iff.mpr hnil
    omega
  rw [readBody, if_neg hpos]
  have hnat := UInt32.lt_iff_toNat_lt.mp hlt
  by_cases hw : n.m_nMsgLen = MsgNode.wrapLen
  · -- the first byte of a body without buffer
    rw [tcpRead_wrapLen hf hlt hnil hw]
    refine ⟨rfl, ?_⟩
    intro hroom
    obtain ⟨b, bs, hbs⟩ := List.exists_cons_of_ne_nil hnil
    have hthrough := hr.room.mpr hroom
    rw [hbs] at hthrough
    exact hthrough.1 (n.m_nMsgId, n.m_nMsgLen.toNat) (by simp [Phase.pending]) (by rw [hw])
  have hle : n.m_nOffSet ≤ n.m_nMsgLen := UInt32.le_iff_toNat_le.mpr hnat.le
  by_cases hshort : n.m_nOffSet.toNat + s.inputBuf.length < n.m_nMsgLen.toNat
  · obtain ⟨h', hrun, hc', ht'⟩ := tcpRead_short hf hw hlen hrec hshort
    rw [hrun]
    have hbite := Reaches.bite (a := s.inputBuf) (b := []) (by simpa using hr)
      ((packetCodec L).feed_body_short (by omega))
      (throughout_body_of hw (by omega))
    refine ⟨⟨rfl, hc.trans hc', _, _, ht', by simpa using hbite⟩, ?_⟩
    have := List.length_pos_iff.mpr hnil
    simp [hnil, this]
  · obtain ⟨data, rest, hbuf, hdata⟩ : ∃ data rest, s.inputBuf = data ++ rest ∧
        n.m_nOffSet.toNat + data.length = n.m_nMsgLen.toNat :=
      ⟨s.inputBuf.take (n.m_nMsgLen.toNat - n.m_nOffSet.toNat), s.inputBuf.drop _,
        (List.take_append_drop _ _).symm, by rw [List.length_take]; omega⟩
    obtain ⟨h', hrun, hc', hcur, hviews⟩ := tcpRead_complete hf hw hlen hle data rest hbuf hdata
    rw [hrun]
    have hne : data ≠ [] := by
      rintro rfl
      simp only [List.length_nil] at hdata
      omega
    rw [hbuf] at hr
    have hbite := hr.bite
      ((packetCodec L).feed_body_exact hne (by omega))
      (throughout_body_of hw (by omega))
    have hidle : h'.Idle := fun p hp => by rw [hcur] at hp; cases hp
    have hmsg : messageView (n.m_nMsgId, n.received ++ data) =
        (n.m_nMsgId, n.m_nMsgLen, n.m_nMsgLen, n.received ++ data) := by
      simp only [messageView, List.length_append, hrec, hdata, UInt32.ofNat_toNat]
    rw [List.map_singleton, hmsg, ← hviews] at hbite
    refine ⟨⟨rfl, hc.trans hc', _, _, .idle hidle, hbite⟩, ?_⟩
    have := List.length_pos_iff.mpr hne
    show rest.length < _
    rw [hbuf, List.length_append]
    omega

/-- `readBody` right after the head of a message without body. -/
theorem readBody_zero {s : ReadState} (hlen : s.inputLen = s.inputBuf.length)
    (hc : SameConn h₀ s.handler) {init : List (ℕ × MsgNode)} {p : ℕ} {n : MsgNode}
    {blk : List UInt8} (hf : s.handler.Filling init p n blk) (hmsg : n.m_nMsgLen = 0)
    (hoff : n.m_nOffSet = 0) (hr : Reaches L s.handler.views (.head []) s.inputBuf vs ph room) :
    Loop.Establishes (Sim L h₀ vs ph room) (·.inputBuf.length) (Ends h₀ vs ph room)
      (s.inputBuf.length + 1) (readBody 1 s) := by
  have hidle : s.handler.Idle := fun q hq => by
    rw [hf.cursor] at hq
    obtain rfl : p = q := Option.some.inj hq
    exact ⟨n, OwnedList.get?_last hf.cells, by rw [hmsg, hoff]; exact UInt32.le_refl _⟩
  by_cases hnil : s.inputBuf = []
  · have hzero : s.inputLen ≤ 0 := by rw [hlen, hnil]; rfl
    rw [readBody, if_pos hzero]
    rw [hnil] at hr ⊢
    exact ends_of_nil (.idle hidle) hc hr
  have hpos : ¬ s.inputLen ≤ 0 := by
    have := List.length_pos_iff.mpr hnil
    omega
  rw [readBody, if_neg hpos]
  have hw : n.m_nMsgLen ≠ MsgNode.wrapLen := by rw [hmsg]; decide
  obtain ⟨h', hrun, hc', hcur, hviews⟩ := tcpRead_complete hf hw hlen
    (by rw [hmsg, hoff]; exact UInt32.le_refl _) [] s.inputBuf rfl
    (by simp [hmsg, hoff])
  rw [hrun]
  have hidle' : h'.Idle := fun p hp => by rw [hcur] at hp; cases hp
  have hsame : h'.views = s.handler.views := by
    rw [hviews, hf.views]
    simp [MsgNode.view, hmsg, hoff]
  rw [← hsame] at hr
  exact ⟨⟨rfl, hc.trans hc', _, _, .idle hidle', hr⟩, Nat.lt_succ_self _⟩

/-- A node that was inserted for a head stands where the decoder stands after it. -/
theorem readBody_insertNode {h : TcpHandler} {id len : UInt32} {rest : List UInt8}
    (hc : SameConn h₀ h)
    (hr : Reaches L (h.views ++ (Format.accept id len.toNat).1.map messageView)
      (Format.accept id len.toNat).2 rest vs ph room) :
    Loop.Establishes (Sim L h₀ vs ph room) (·.inputBuf.length) (Ends h₀ vs ph room)
      (rest.length + 1) (readBody 1 ⟨h.insertNode .block id len, rest, rest.length⟩) := by
  have hf := filling_insertNode h id len
  have hcells : cellViews h.m_listMsgs.cells = h.views := (views_of_cells rfl).symm
  by_cases hzero : len = 0
  · subst hzero
    apply readBody_zero rfl (hc.trans ⟨rfl, rfl⟩) hf rfl rfl
    rw [hf.views, hcells]
    simpa [Format.accept, messageView, MsgNode.view, MsgNode.received, MsgNode.new] using hr
  · have hpos : len.toNat ≠ 0 := fun he => hzero (UInt32.toNat_inj.mp he)
    have hlt : (0 : UInt32) < len := UInt32.lt_iff_toNat_lt.mpr (Nat.pos_of_ne_zero hpos)
    have hnew : Reaches L (cellViews h.m_listMsgs.cells)
        (.body id len.toNat (MsgNode.new .block id len).received) rest vs ph room := by
      rw [hcells]
      simpa [Format.accept, hpos, MsgNode.received, MsgNode.new] using hr
    have hbusy := readBody_busy (s := ⟨h.insertNode .block id len, rest, rest.length⟩) rfl
      (hc.trans ⟨rfl, rfl⟩) hf hlt (by simp [MsgNode.received, MsgNode.new]) hnew
    exact hbusy.mono (by split <;> simp)

/-- The bytes of a head that `readHead` takes from the buffer. -/
theorem readHead_bytes {hd : List UInt8} (h : hd.length = PACKETHEADLEN) :
    Block.overwrite (List.replicate PACKETHEADLEN 0) 0 hd = hd := by
  simp [Block.overwrite, h]

/-- A pass that begins with a head. -/
theorem readPass_idle {s : ReadState} (hlen : s.inputLen = s.inputBuf.length)
    (hc : SameConn h₀ s.handler) (hi : s.handler.Idle)
    (hr : Reaches L s.handler.views (.head []) s.inputBuf vs ph room) :
    Loop.Establishes (Sim L h₀ vs ph room) (·.inputBuf.length) (Ends h₀ vs ph room)
      s.inputBuf.length (readPass L mallocOk 1 s) := by
  by_cases hnil : s.inputBuf = []
  · have hzero : ¬ s.inputLen > 0 := by rw [hlen, hnil]; simp
    rw [readPass, if_neg hzero]
    rw [hnil] at hr ⊢
    exact ends_of_nil (.idle hi) hc hr
  have hpos : s.inputLen > 0 := by
    rw [hlen]
    exact List.length_pos_iff.mpr hnil
  simp only [readPass, if_pos hpos, expectsHead_of_idle hi, bind, Except.bind, if_true]
  by_cases hshort : s.inputLen < PACKETHEADLEN
  · -- not a whole head yet: it stays in the buffer
    simp only [readHead, if_pos hshort, pure, Except.pure]
    obtain ⟨hv, hp, hroom⟩ := hr
    have hbytes : ([] : List UInt8).length + s.inputBuf.length < (packetCodec L).headLen := by
      rw [headLen_packetCodec, ← hlen]
      simpa using hshort
    rw [(packetCodec L).feed_head_short hbytes] at hv hp
    rw [List.map_nil, List.append_nil] at hv
    simp only [List.nil_append] at hp
    subst hv hp
    exact ⟨hroom.mp ((packetCodec L).throughout_head (fun _ x hx => by cases hx) hbytes.le),
      hc, rfl, rfl, .idle hi⟩
  obtain ⟨hd, rest, hbuf, hhd⟩ : ∃ hd rest, s.inputBuf = hd ++ rest ∧ hd.length = PACKETHEADLEN :=
    ⟨s.inputBuf.take PACKETHEADLEN, s.inputBuf.drop _, (List.take_append_drop _ _).symm, by
      rw [List.length_take]; omega⟩
  rw [hbuf] at hr
  have hfeed := feed_packetHead L hhd
  have hthrough : (packetCodec L).Throughout Roomy (.head []) hd :=
    (packetCodec L).throughout_head (fun _ x hx => by cases hx)
      (by rw [headLen_packetCodec, ← hhd]; simp)
  have hleft : sizeSub s.inputLen PACKETHEADLEN = rest.length := by
    rw [hlen, hbuf, List.length_append, hhd, sizeSub_of_le (by omega)]
    omega
  simp only [readHead, if_neg hshort, buffereventRead, hbuf, List.take_left' hhd,
    List.drop_left' hhd, readHead_bytes hhd, hleft]
  by_cases href : (PacketHead.ofBytes L hd).refused = true
  · simp only [href, if_true, pure, Except.pure] at hfeed ⊢
    obtain ⟨hv, hp, hroom⟩ := hr.bite hfeed hthrough
    rw [Format.feed_refused] at hv hp
    subst hp
    refine ⟨hroom.mp ?_, hc, rfl, by simpa using hv⟩
    exact Format.throughout_refused _ (fun x hx => by cases hx) _
  · simp only [href, Bool.false_eq_true, if_false] at hfeed ⊢
    have hnext := hr.bite hfeed hthrough
    have hbody := readBody_insertNode hc hnext
    refine Loop.Establishes.mono ?_ hbody
    rw [List.length_append, hhd]
    simp only [PACKETHEADLEN]
    omega

theorem readPass_establishes {s : ReadState} (hs : Sim L h₀ vs ph room s) :
    Loop.Establishes (Sim L h₀ vs ph room) (·.inputBuf.length) (Ends h₀ vs ph room)
      s.inputBuf.length (readPass L mallocOk 1 s) := by
  obtain ⟨hlen, hc, vs₁, ph₁, ht, hr⟩ := hs
  cases ht with
  | idle hi => exact readPass_idle hlen hc hi hr
  | @busy init p n blk hf hlt hrec =>
    by_cases hnil : s.inputBuf = []
    · have hzero : ¬ s.inputLen > 0 := by rw [hlen, hnil]; simp
      rw [readPass, if_neg hzero]
      rw [hnil] at hr ⊢
      exact ends_of_nil (.busy hf hlt hrec) hc hr
    · have hpos : s.inputLen > 0 := by
        rw [hlen]
        exact List.length_pos_iff.mpr hnil
      have hhead : ¬ n.m_nMsgLen ≤ n.m_nOffSet := UInt32.not_le.mpr hlt
      have hbody := readBody_busy hlen hc hf hlt hrec hr
      rw [if_neg hnil, Nat.add_zero] at hbody
      simpa only [readPass, if_pos hpos, hf.expectsHead, bind, Except.bind, hhead, decide_false,
        Bool.false_eq_true, if_false] using hbody

/-- **What a read event computes.** On a handler that stands in phase `ph` of its stream, over
buffered bytes whose body bytes all have room, `dealReadEvent` ends as the decoder does; a body
byte without room is an access outside the buffer. -/
theorem dealReadEvent_spec (L : IntLayout) {h : TcpHandler} {vs : List NodeView}
    {ph : Phase UInt8 UInt32} (ht : Tracks h vs ph) (buf : List UInt8) :
    Ends h (vs ++ ((packetCodec L).feed ph buf).1.map messageView)
      ((packetCodec L).feed ph buf).2 ((packetCodec L).Throughout Roomy ph buf)
      (dealReadEvent L mallocOk 1 h buf) := by
  obtain ⟨r, hrun, hr⟩ := Loop.run_of_variant (readPass L mallocOk 1) (·.inputBuf.length)
    (fun _ hs => readPass_establishes hs) (buf.length + 1) (s := ⟨h, buf, buf.length⟩)
    ⟨rfl, .refl h, vs, ph, ht, rfl, rfl, Iff.rfl⟩ (Nat.lt_succ_self _)
  rw [dealReadEvent, hrun]
  exact hr

end TcpHandler

end SmartServer
